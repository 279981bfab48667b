import ClosureLint.Proofs.Comment.Piece

/-! What a turn outside comments and strings reads besides its own byte: the bytes behind an `r`,
the hashes and the quote ahead of it, and the bytes ahead of a quote. All of it shows in the
characters of the text. -/

namespace ClosureLint.Comment

open Text (utf8Back)

theorem isWord_high {b : UInt8} (hb : 0x80 ≤ b) : isWord b = false := by
  have hle : ∀ x : UInt8, x < 0x80 → ¬ b ≤ x := fun x hx h =>
    absurd (UInt8.lt_of_le_of_lt h hx) (UInt8.not_lt.mpr hb)
  have hne : b ≠ 0x5f := by
    rintro rfl
    exact absurd hb (by decide)
  simp [isWord, hle 0x39 (by decide), hle 0x5a (by decide), hle 0x7a (by decide), hne]

theorem isWordChar_high {c : Char} (hc : 0x80 ≤ c.toNat) : isWordChar c = false := by
  have hle : ∀ d : Char, d.toNat < 0x80 → ¬ c.val ≤ d.val := fun d hd h =>
    absurd (Nat.le_trans hc (UInt32.le_iff_toNat_le.mp h)) (Nat.not_le.mpr hd)
  have hne : c ≠ '_' := by
    rintro rfl
    exact absurd hc (by decide)
  show (decide ('A'.val ≤ c.val ∧ c.val ≤ 'Z'.val) ||
    (decide ('a'.val ≤ c.val) && decide (c.val ≤ 'z'.val)) ||
      (decide ('0'.val ≤ c.val) && decide (c.val ≤ '9'.val)) || c == '_') = false
  rw [decide_eq_false fun h => hle 'Z' (by decide) h.2, decide_eq_false (hle 'z' (by decide)),
    decide_eq_false (hle '9' (by decide)), beq_false_of_ne hne]
  simp only [Bool.and_false, Bool.or_false]

/-- The byte before some place, as a word byte or not, from the character before it. -/
theorem utf8Back_cons_cases (c : Char) (behind : Text) :
    (c.toNat < 0x80 ∧ utf8Back (c :: behind) = UInt8.ofNat c.toNat :: utf8Back behind) ∨
      (0x80 ≤ c.toNat ∧ ∃ x xs, 0x80 ≤ x ∧ utf8Back (c :: behind) = x :: xs) := by
  rw [Text.utf8Back_cons]
  by_cases hc : c.toNat < 0x80
  · exact .inl ⟨hc, by rw [Text.encode_ascii hc]; rfl⟩
  · refine .inr ⟨by omega, ?_⟩
    cases he : (String.utf8EncodeChar c).reverse with
    | nil => exact absurd (List.reverse_eq_nil_iff.mp he) String.utf8EncodeChar_ne_nil
    | cons x xs =>
      have hx : x ∈ String.utf8EncodeChar c := by
        rw [← List.mem_reverse, he]
        simp
      exact ⟨x, xs ++ utf8Back behind, Text.encode_high (by omega) hx, rfl⟩

theorem head?_utf8Back (behind : Text) :
    (utf8Back behind).head?.all (!isWord ·) = behind.head?.all (!isWordChar ·) := by
  cases behind with
  | nil => rfl
  | cons c behind =>
    rcases utf8Back_cons_cases c behind with ⟨hc, he⟩ | ⟨hc, x, xs, hx, he⟩
    · rw [he]
      simp [isWord_byte hc]
    · rw [he]
      simp [isWord_high hx, isWordChar_high hc]

/-- Whether a raw string may begin at a place, from the characters behind it. -/
theorem mayOpenRaw_utf8Back (behind : Text) :
    mayOpenRaw (utf8Back behind) = mayBeginRaw behind := by
  cases behind with
  | nil => rfl
  | cons c behind =>
    by_cases hb : c = 'b'
    · subst hb
      have he : utf8Back ('b' :: behind) = 0x62 :: utf8Back behind := by
        rw [Text.utf8Back_cons]
        rfl
      rw [he]
      exact head?_utf8Back behind
    · rcases utf8Back_cons_cases c behind with ⟨hc, he⟩ | ⟨hc, x, xs, hx, he⟩
      · have hbyte : UInt8.ofNat c.toNat ≠ 0x62 := fun h =>
          hb (Text.ofNat_inj hc (d := 'b') (by decide) h)
        rw [he, mayOpenRaw, mayBeginRaw, isWord_byte hc]
        · simpa using hb
        · simpa using hbyte
      · have hbyte : x ≠ 0x62 := by
          rintro rfl
          exact absurd hx (by decide)
        rw [he, mayOpenRaw, mayBeginRaw, isWord_high hx, isWordChar_high hc]
        · simpa using hb
        · simpa using hbyte

theorem exists_hashes (t : Text) :
    ∃ n u, t = List.replicate n '#' ++ u ∧ u.head? ≠ some '#' := by
  induction t with
  | nil => exact ⟨0, [], rfl, by simp⟩
  | cons c t ih =>
    by_cases h : c = '#'
    · obtain ⟨n, u, rfl, hu⟩ := ih
      exact ⟨n + 1, u, by rw [h, List.replicate_succ, List.cons_append], hu⟩
    · exact ⟨0, c :: t, rfl, by simpa using h⟩

theorem rawHashes?_utf8 {behind : List UInt8} {n : Nat} {u : Text} (hu : u.head? ≠ some '#') :
    rawHashes? behind 0x72 (Text.utf8 (List.replicate n '#' ++ u)) =
      if mayOpenRaw behind = true ∧ u.head? = some '"' then some n else none := by
  have hhash : (Text.utf8 u).head? ≠ some 0x23 := fun h =>
    hu ((Text.head?_utf8 (c := '#') (by decide) u).mp h)
  have hquote := Text.head?_utf8 (c := '"') (by decide) u
  have htake : ((Text.utf8 (List.replicate n '#' ++ u)).takeWhile (· == 0x23)).length = n := by
    rw [Text.utf8_append, Text.utf8_replicate (by decide)]
    cases hb : Text.utf8 u with
    | nil => simp
    | cons x xs =>
      rw [hb] at hhash
      have hx : x ≠ 0x23 := by simpa using hhash
      rw [List.takeWhile_append_of_pos (by simp)]
      simp [hx]
  have hget : (Text.utf8 (List.replicate n '#' ++ u))[n]? = (Text.utf8 u).head? := by
    rw [Text.utf8_append, Text.utf8_replicate (by decide), List.getElem?_append_right (by simp)]
    simp [List.head?_eq_getElem?]
  simp only [rawHashes?, htake, hget]
  have h22 : (Text.utf8 u).head? = some 0x22 ↔ u.head? = some '"' := hquote
  by_cases hm : mayOpenRaw behind = true <;> simp [hm, h22]

/-- A character other than a quote, a backslash or a newline is a literal in quotes. -/
theorem charLiteralWidth?_plain {c : Char} (hq : c ≠ '\'') (hb : c ≠ '\\') (hn : c ≠ '\n')
    (t : Text) : charLiteralWidth? 0x27 (Text.utf8 (c :: t)) =
      if t.head? = some '\'' then some (c.utf8Size + 2) else none := by
  have hhead : (Text.utf8 t).head? = some 0x27 ↔ t.head? = some '\'' :=
    Text.head?_utf8 (c := '\'') (by decide) t
  have hlen := String.length_utf8EncodeChar c
  have hne : ∀ d : Char, d.toNat < 0x80 → c ≠ d →
      (String.utf8EncodeChar c).head? ≠ some (UInt8.ofNat d.toNat) := by
    intro d hd h he
    have hmem := List.mem_of_mem_head? he
    exact h ((Text.mem_encode hd c).mp hmem).symm
  have h27 := hne '\'' (by decide) hq
  have h5c := hne '\\' (by decide) hb
  have h0a := hne '\n' (by decide) hn
  rw [Text.utf8_cons]
  cases he : String.utf8EncodeChar c with
  | nil => exact absurd he String.utf8EncodeChar_ne_nil
  | cons x xs =>
    rw [he, List.length_cons] at hlen
    rw [he, List.head?_cons, ne_eq, Option.some.injEq] at h27 h5c h0a
    have hget : (x :: (xs ++ Text.utf8 t))[c.utf8Size]? = (Text.utf8 t).head? := by
      rw [← hlen, List.getElem?_cons_succ, List.getElem?_append_right (Nat.le_refl _), Nat.sub_self,
        List.head?_eq_getElem?]
    rw [List.cons_append]
    rw [charLiteralWidth?]
    · simp [hget, hhead, charWidth_lead c he]
    all_goals simp_all

theorem charLiteralWidth?_escaped {c : Char} (hc : c.toNat < 0x80) (t : Text) :
    charLiteralWidth? 0x27 (Text.utf8 ('\\' :: c :: t)) =
      ((t.utf8.take escapeReach).findIdx? (· == 0x27)).map (· + 4) := by
  rw [Text.utf8_cons_ascii (by decide), Text.utf8_cons_ascii hc]
  rfl

theorem charLiteralWidth?_eq_none {rest : Text} (h : ¬ OpensChar rest) :
    charLiteralWidth? 0x27 rest.utf8 = none := by
  cases rest with
  | nil => rfl
  | cons c t =>
    by_cases hb : c = '\\'
    · subst hb
      have hno : 0x27 ∉ ((Text.utf8 t).drop 1).take escapeReach := fun hm => h (.escaped hm)
      rw [Text.utf8_cons_ascii (by decide)]
      cases ht : Text.utf8 t with
      | nil => rfl
      | cons x xs =>
        rw [ht, List.drop_one, List.tail_cons] at hno
        show ((xs.take escapeReach).findIdx? (· == 0x27)).map (· + 4) = none
        rw [List.findIdx?_eq_none_iff.mpr]
        · rfl
        · intro y hy
          exact beq_false_of_ne fun he => hno (he ▸ hy)
    by_cases hq : c = '\''
    · subst hq
      rfl
    by_cases hn : c = '\n'
    · subst hn
      rfl
    rw [charLiteralWidth?_plain hq hb hn, if_neg]
    intro ht
    obtain ⟨u, rfl⟩ := List.head?_eq_some_iff.mp ht
    exact h (.plain hq hb hn)

end ClosureLint.Comment
