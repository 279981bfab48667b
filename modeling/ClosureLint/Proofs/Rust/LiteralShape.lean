import ClosureLint.Proofs.Comment.Piece
import ClosureLint.Rust.Literal

/-! What the lexer takes for words and literals, character by character: what stands between the
quotes of a literal, and what words and numbers are made of. -/

namespace ClosureLint.Rust

open Comment (StringContent)

/-! ### Escapes -/

/-- A digit or mark that may stand in an escape behind its first character. -/
def isEscapePart (c : Char) : Bool := isHex c || c == '_' || c == '\x7b' || c == '\x7d'

theorem isHex_ascii {c : Char} (h : isHex c = true) : c.toNat < 0x80 := by
  have hv : c.val.toNat = c.toNat := rfl
  simp only [isHex, hexValue?, Char.isDigit, Char.le_def, UInt32.le_iff_toNat_le] at h
  split at h
  next hd =>
    simp only [Bool.and_eq_true, decide_eq_true_eq, hv] at hd
    exact Nat.lt_of_le_of_lt hd.2 (by decide)
  next =>
    split at h
    next hl => exact Nat.lt_of_le_of_lt hl.2 (by decide)
    next =>
      split at h
      next hu => exact Nat.lt_of_le_of_lt hu.2 (by decide)
      next => cases h

theorem isEscapePart_ascii {c : Char} (h : isEscapePart c = true) : c.toNat < 0x80 := by
  simp only [isEscapePart, Bool.or_eq_true, beq_iff_eq] at h
  rcases h with ((h | rfl) | rfl) | rfl
  · exact isHex_ascii h
  all_goals decide

theorem bracedDigits_shape {digits value width v n : Nat} {t : Text}
    (h : bracedDigits digits value width t = some (v, n)) :
    ∃ tail rest, t = tail ++ rest ∧ n = width + tail.length ∧
      ∀ c ∈ tail, isEscapePart c = true := by
  induction t generalizing digits value width with
  | nil => cases h
  | cons c t ih =>
    have hcons : ∀ {digits value}, isEscapePart c = true →
        bracedDigits digits value (width + 1) t = some (v, n) →
        ∃ tail rest, c :: t = tail ++ rest ∧ n = width + tail.length ∧
          ∀ x ∈ tail, isEscapePart x = true := by
      intro digits value hc h
      obtain ⟨tail, rest, rfl, rfl, htail⟩ := ih h
      refine ⟨c :: tail, rest, rfl, by simp only [List.length_cons]; omega, ?_⟩
      intro x hx
      rcases List.mem_cons.mp hx with rfl | hx
      · exact hc
      · exact htail x hx
    rw [bracedDigits] at h
    split at h
    next d hd =>
      split at h
      · cases h
      · exact hcons (by simp [isEscapePart, isHex, hd]) h
    next =>
      split at h
      · cases h
      split at h
      next hc => exact hcons (by simp [isEscapePart, hc]) h
      next =>
        split at h
        next hc =>
          cases h
          refine ⟨[c], t, rfl, rfl, ?_⟩
          intro x hx
          rw [List.mem_singleton.mp hx]
          simp [isEscapePart, hc]
        next => cases h

theorem bracedCode?_shape {v n : Nat} {t : Text} (h : bracedCode? t = some (v, n)) :
    ∃ tail rest, t = tail ++ rest ∧ n = tail.length ∧ ∀ c ∈ tail, isEscapePart c = true := by
  unfold bracedCode? at h
  split at h
  next t =>
    simp only [Option.bind_eq_bind, Option.bind_eq_some_iff] at h
    obtain ⟨⟨value, width⟩, hdigits, h⟩ := h
    obtain ⟨tail, rest, rfl, rfl, htail⟩ := bracedDigits_shape hdigits
    simp only at h
    split at h
    · cases h
      refine ⟨'\x7b' :: tail, rest, rfl, by simp [Nat.add_comm], ?_⟩
      intro x hx
      rcases List.mem_cons.mp hx with rfl | hx
      · rfl
      · exact htail x hx
    · cases h
  next => cases h

/-- The characters that may follow a backslash. -/
def escapeMarks : Text := ['n', 'r', 't', '\\', '\'', '"', '0', 'x', 'u']

theorem isOctal_isHex {c : Char} (h : isOctal c = true) : isHex c = true := by
  have hc : c.isDigit = true := by
    simp only [isOctal, Bool.and_eq_true, decide_eq_true_eq, Char.le_def,
      UInt32.le_iff_toNat_le] at h
    simp only [Char.isDigit, Bool.and_eq_true, decide_eq_true_eq, ge_iff_le,
      UInt32.le_iff_toNat_le]
    exact ⟨h.1, Nat.le_trans h.2 (by decide)⟩
  simp [isHex, hexValue?, hc]

/-- An escape is a mark and perhaps some digits. -/
theorem escapeTail?_shape {form : StringForm} {c : Char} {t : Text} {n : Nat}
    (h : escapeTail? form c t = some n) :
    c ∈ escapeMarks ∧ ∃ tail rest, t = tail ++ rest ∧ n = tail.length ∧
      ∀ x ∈ tail, isEscapePart x = true := by
  have htwo : ∀ {a b : Char} {rest : Text}, isHex a = true → isHex b = true →
      ∃ tail rest', a :: b :: rest = tail ++ rest' ∧ 2 = tail.length ∧
        ∀ x ∈ tail, isEscapePart x = true := by
    intro a b rest ha hb
    refine ⟨[a, b], rest, rfl, rfl, ?_⟩
    simp [isEscapePart, ha, hb]
  unfold escapeTail? at h
  split at h
  next hc =>
    cases h
    refine ⟨?_, [], t, rfl, rfl, by simp⟩
    simp only [isSimpleEscape, Bool.or_eq_true, beq_iff_eq] at hc
    rcases hc with ((((rfl | rfl) | rfl) | rfl) | rfl) | rfl <;> decide
  next =>
    split at h
    · cases h
      exact ⟨by decide, [], _, rfl, rfl, by simp⟩
    · cases h
      exact ⟨by decide, [], _, rfl, rfl, by simp⟩
    · split at h
      next hx =>
        cases h
        simp only [Bool.and_eq_true] at hx
        exact ⟨by decide, htwo (isOctal_isHex hx.1) hx.2⟩
      next => cases h
    · split at h
      next hx =>
        cases h
        simp only [Bool.and_eq_true] at hx
        exact ⟨by decide, htwo hx.1 hx.2⟩
      next => cases h
    · split at h
      next hx =>
        cases h
        simp only [Bool.and_eq_true] at hx
        exact ⟨by decide, htwo hx.1.1 hx.1.2⟩
      next => cases h
    · obtain ⟨⟨v, m⟩, hm, rfl⟩ := Option.map_eq_some_iff.mp h
      exact ⟨by decide, bracedCode?_shape hm⟩
    · split at h
      next v m hm =>
        split at h
        · cases h
        · cases h
          exact ⟨by decide, bracedCode?_shape hm⟩
      next => cases h
    · cases h

/-! ### Strings -/

theorem continuation?_shape {last : Char} {width n : Nat} {t : Text}
    (h : continuation? last width t = some n) :
    ∃ tail rest, t = tail ++ rest ∧ n = width + tail.length ∧ '"' ∉ tail ∧ '\\' ∉ tail := by
  induction t generalizing last width with
  | nil => cases h
  | cons c t ih =>
    have hcons : ∀ {last}, c ≠ '"' → c ≠ '\\' → continuation? last (width + 1) t = some n →
        ∃ tail rest, c :: t = tail ++ rest ∧ n = width + tail.length ∧ '"' ∉ tail ∧
          '\\' ∉ tail := by
      intro last hq hb h
      obtain ⟨tail, rest, rfl, rfl, htq, htb⟩ := ih h
      refine ⟨c :: tail, rest, rfl, by simp only [List.length_cons]; omega, ?_, ?_⟩
      · simpa [Ne.symm hq] using htq
      · simpa [Ne.symm hb] using htb
    rw [continuation?] at h
    split at h
    · split at h
      next hc =>
        obtain rfl : c = '\n' := by simpa using hc
        exact hcons (by decide) (by decide) h
      next => cases h
    · split at h
      next hc =>
        simp only [Bool.or_eq_true, beq_iff_eq] at hc
        rcases hc with ((rfl | rfl) | rfl) | rfl <;> exact hcons (by decide) (by decide) h
      next =>
        cases h
        exact ⟨[], c :: t, rfl, rfl, by simp, by simp⟩

theorem stringContent_append {t rest : Text} (hq : '"' ∉ t) (hb : '\\' ∉ t)
    (h : StringContent rest) : StringContent (t ++ rest) := by
  induction t with
  | nil => exact h
  | cons c t ih =>
    simp only [List.mem_cons, not_or] at hq hb
    exact .plain (Ne.symm hq.1) (Ne.symm hb.1) (ih hq.2 hb.2)

/-- What is left of a string is its content and the quote behind it. -/
theorem stringRest_shape {form : StringForm} {fuel width n : Nat} {t : Text}
    (h : stringRest form fuel width t = some n) :
    ∃ content rest, t = content ++ '"' :: rest ∧ n = width + content.length + 1 ∧
      StringContent content := by
  have hescape : ∀ {width n : Nat} {c : Char} {t tail rest : Text}, t = tail ++ rest →
      '"' ∉ tail → '\\' ∉ tail →
      (∃ content rest', t.drop tail.length = content ++ '"' :: rest' ∧
        n = width + 2 + tail.length + content.length + 1 ∧ StringContent content) →
      ∃ content rest', '\\' :: c :: t = content ++ '"' :: rest' ∧
        n = width + content.length + 1 ∧ StringContent content := by
    intro width n c t tail rest ht hq hb ih
    obtain ⟨content, rest', hdrop, rfl, hcontent⟩ := ih
    rw [ht, List.drop_left] at hdrop
    refine ⟨'\\' :: c :: (tail ++ content), rest', ?_, ?_,
      .pair (stringContent_append hq hb hcontent)⟩
    · rw [ht, hdrop]
      simp
    · simp only [List.length_cons, List.length_append]
      omega
  fun_induction stringRest form fuel width t with
  | case1 => cases h
  | case2 => cases h
  | case3 fuel width t =>
    cases h
    exact ⟨[], t, rfl, rfl, .nil⟩
  | case4 fuel width t ih =>
    obtain ⟨content, rest, rfl, rfl, hcontent⟩ := ih h
    refine ⟨'\r' :: '\n' :: content, rest, rfl, by simp only [List.length_cons]; omega, ?_⟩
    exact .plain (by decide) (by decide) (.plain (by decide) (by decide) hcontent)
  | case5 => cases h
  | case6 fuel width c t jp hc ih =>
    simp only [Option.bind_eq_bind, Option.bind_eq_some_iff] at h
    obtain ⟨k, hk, h⟩ := h
    obtain ⟨tail, rest, ht, rfl, hq, hb⟩ := continuation?_shape hk
    rw [Nat.zero_add] at h
    exact hescape ht hq hb (by simpa using ih _ h)
  | case7 fuel width c t jp hc ih =>
    simp only [Option.bind_eq_bind, Option.bind_eq_some_iff] at h
    obtain ⟨k, hk, h⟩ := h
    obtain ⟨-, tail, rest, ht, rfl, htail⟩ := escapeTail?_shape hk
    exact hescape ht (fun hx => absurd (htail _ hx) (by decide))
      (fun hx => absurd (htail _ hx) (by decide)) (ih _ h)
  | case8 => cases h
  | case9 fuel width c t hq _ _ hpair hlast hallows ih =>
    obtain ⟨content, rest, rfl, rfl, hcontent⟩ := ih h
    refine ⟨c :: content, rest, rfl, by simp only [List.length_cons]; omega, .plain hq ?_ hcontent⟩
    rintro rfl
    cases content with
    | nil => exact hpair _ _ rfl rfl
    | cons d content => exact hpair _ _ rfl rfl
  | case10 => cases h

theorem rawRest_shape {form : StringForm} {hashes width n : Nat} {t : Text}
    (h : rawRest form hashes width t = some n) :
    ∃ content rest, t = content ++ '"' :: (List.replicate hashes '#' ++ rest) ∧
      n = width + content.length + 1 + hashes ∧
      ¬ '"' :: List.replicate hashes '#' <:+: content := by
  have hcons : ∀ {c : Char} {content : Text},
      ¬ (c = '"' ∧ List.replicate hashes '#' <+: content) →
      ¬ '"' :: List.replicate hashes '#' <:+: content →
      ¬ '"' :: List.replicate hashes '#' <:+: c :: content := by
    intro c content hc hcontent hin
    rcases List.infix_cons_iff.mp hin with hmarker | hin
    · obtain ⟨hquote, hhashes⟩ := List.cons_prefix_cons.mp hmarker
      exact hc ⟨hquote.symm, hhashes⟩
    · exact hcontent hin
  fun_induction rawRest form hashes width t with
  | case1 => cases h
  | case2 width t ih =>
    obtain ⟨content, rest, rfl, rfl, hcontent⟩ := ih h
    refine ⟨'\r' :: '\n' :: content, rest, rfl, by simp only [List.length_cons]; omega, ?_⟩
    exact hcons (fun hx => absurd hx.1 (by decide))
      (hcons (fun hx => absurd hx.1 (by decide)) hcontent)
  | case3 width c t _ hc =>
    cases h
    obtain ⟨hquote, hmarker⟩ := Bool.and_eq_true_iff.mp hc
    obtain ⟨rest, rfl⟩ := List.isPrefixOf_iff_prefix.mp hmarker
    obtain rfl : c = '"' := by simpa using hquote
    exact ⟨[], rest, rfl, rfl, by simp⟩
  | case4 => cases h
  | case5 width c t _ hc _ ih =>
    obtain ⟨content, rest, rfl, rfl, hcontent⟩ := ih h
    refine ⟨c :: content, rest, rfl, by simp only [List.length_cons]; omega,
      hcons ?_ hcontent⟩
    rintro ⟨rfl, hmarker⟩
    refine hc (Bool.and_eq_true_iff.mpr ⟨rfl, List.isPrefixOf_iff_prefix.mpr ?_⟩)
    exact hmarker.trans (List.prefix_append _ _)

theorem takeWhile_split (p : Char → Bool) (t : Text) :
    ∃ front rest, t = front ++ rest ∧ t.takeWhile p = front ∧ (∀ c ∈ front, p c = true) ∧
      rest.head?.all (!p ·) = true := by
  refine ⟨t.takeWhile p, t.dropWhile p, List.takeWhile_append_dropWhile.symm, rfl,
    List.all_eq_true.mp List.all_takeWhile, ?_⟩
  induction t with
  | nil => rfl
  | cons c t ih =>
    rw [List.dropWhile_cons]
    split
    · exact ih
    next hc => simpa using hc

theorem rawString?_shape {form : StringForm} {n : Nat} {t : Text} (h : rawString? form t = some n) :
    ∃ hashes content rest, t = List.replicate hashes '#' ++
        '"' :: (content ++ '"' :: (List.replicate hashes '#' ++ rest)) ∧
      n = 2 * hashes + content.length + 2 ∧ ¬ '"' :: List.replicate hashes '#' <:+: content := by
  obtain ⟨front, u, rfl, htake, hfront, -⟩ := takeWhile_split (· == '#') t
  have hhashes : front = List.replicate front.length '#' :=
    List.eq_replicate_of_mem fun c hc => by simpa using hfront c hc
  simp only [rawString?, htake, List.drop_left] at h
  split at h
  next rest =>
    split at h
    · obtain ⟨content, rest', rfl, rfl, hcontent⟩ := rawRest_shape h
      refine ⟨front.length, content, rest', ?_, by omega, hcontent⟩
      rw [← hhashes]
    · cases h
  next => cases h

theorem characterRest_shape {form : StringForm} {n : Nat} {t : Text}
    (h : characterRest form t = some n) :
    (∃ c rest, t = c :: '\'' :: rest ∧ n = 2 ∧ c ≠ '\\') ∨
      ∃ c tail rest, t = '\\' :: c :: (tail ++ '\'' :: rest) ∧ n = tail.length + 3 ∧
        c ∈ escapeMarks ∧ ∀ x ∈ tail, isEscapePart x = true := by
  unfold characterRest at h
  split at h
  next c t =>
    simp only [Option.bind_eq_bind, Option.bind_eq_some_iff] at h
    obtain ⟨k, hk, h⟩ := h
    obtain ⟨hc, tail, rest, rfl, rfl, htail⟩ := escapeTail?_shape hk
    split at h
    next hquote =>
      cases h
      rw [List.getElem?_append_right (Nat.le_refl _), Nat.sub_self] at hquote
      cases rest with
      | nil => cases hquote
      | cons d rest =>
        obtain rfl : d = '\'' := Option.some.inj hquote
        exact .inr ⟨c, tail, rest, rfl, rfl, hc, htail⟩
    next => cases h
  next c t hpair =>
    split at h
    · cases h
      exact .inl ⟨c, t, rfl, rfl, hpair⟩
    · cases h
  next => cases h

/-! ### Words and numbers -/

/-- The front of a text without its word: the word, and what does not continue it. -/
theorem wordWidth_shape (t : Text) :
    ∃ w rest, t = w ++ rest ∧ wordWidth t = w.length ∧
      (∀ c ∈ w, isWordStart c = true ∨ isWordPart c = true) ∧
      (w ≠ [] → rest.head?.all (!isWordPart ·) = true) := by
  cases t with
  | nil => exact ⟨[], [], rfl, rfl, by simp, by simp⟩
  | cons c t =>
    rw [wordWidth]
    split
    next hc =>
      obtain ⟨front, rest, rfl, htake, hfront, hrest⟩ := takeWhile_split isWordPart t
      refine ⟨c :: front, rest, rfl, ?_, ?_, fun _ => hrest⟩
      · rw [htake, List.length_cons, Nat.add_comm]
      · intro x hx
        rcases List.mem_cons.mp hx with rfl | hx
        · exact .inl hc
        · exact .inr (hfront x hx)
    next => exact ⟨[], c :: t, rfl, rfl, by simp, by simp⟩

theorem plainWord?_shape {t : Text} {n : Nat} (h : plainWord? t = some n) :
    ∃ w rest, t = w ++ rest ∧ n = w.length ∧ w ≠ [] ∧
      (∀ c ∈ w, isWordStart c = true ∨ isWordPart c = true) ∧
      rest.head?.all (!isWordPart ·) = true := by
  obtain ⟨w, rest, rfl, hwidth, hw, hrest⟩ := wordWidth_shape t
  unfold plainWord? at h
  split at h
  · cases h
  next hne =>
    cases h
    have hw' : w ≠ [] := by
      rintro rfl
      exact hne hwidth
    exact ⟨w, rest, rfl, hwidth, hw', hw, hrest hw'⟩

def isNumberPart (c : Char) : Bool :=
  isHex c || c == '_' || c == '.' || c == '+' || c == '-' || c == 'x' || c == 'o'

theorem isNumberPart_of_isDigit {c : Char} (h : c.isDigit = true) : isNumberPart c = true := by
  simp [isNumberPart, isHex, hexValue?, h]

/-- The front of a text that is made of characters with a property. -/
def Begins (p : Char → Bool) (t : Text) (n : Nat) : Prop :=
  ∃ front rest, t = front ++ rest ∧ n = front.length ∧ ∀ c ∈ front, p c = true

theorem Begins.nil {p : Char → Bool} (t : Text) : Begins p t 0 := ⟨[], t, rfl, rfl, by simp⟩

theorem Begins.cons {p : Char → Bool} {c : Char} {t : Text} {n : Nat} (hc : p c = true)
    (h : Begins p t n) : Begins p (c :: t) (n + 1) := by
  obtain ⟨front, rest, rfl, rfl, hfront⟩ := h
  refine ⟨c :: front, rest, rfl, rfl, ?_⟩
  intro x hx
  rcases List.mem_cons.mp hx with rfl | hx
  · exact hc
  · exact hfront x hx

theorem Begins.append {p : Char → Bool} {t : Text} {m n : Nat} (hm : Begins p t m)
    (hn : Begins p (t.drop m) n) : Begins p t (m + n) := by
  obtain ⟨front, rest, rfl, rfl, hfront⟩ := hm
  rw [List.drop_left] at hn
  obtain ⟨back, rest, rfl, rfl, hback⟩ := hn
  refine ⟨front ++ back, rest, by rw [List.append_assoc], List.length_append.symm, ?_⟩
  intro x hx
  rcases List.mem_append.mp hx with hx | hx
  · exact hfront x hx
  · exact hback x hx

theorem Begins.takeWhile {p q : Char → Bool} (h : ∀ c, q c = true → p c = true) (t : Text) :
    Begins p t (t.takeWhile q).length := by
  obtain ⟨front, rest, rfl, htake, hfront, -⟩ := takeWhile_split q t
  exact ⟨front, rest, rfl, by rw [htake], fun c hc => h c (hfront c hc)⟩

theorem exponentRest_shape {signed valued : Bool} {width n : Nat} {t : Text}
    (h : exponentRest signed valued width t = some n) :
    ∃ k, n = width + k ∧ Begins isNumberPart t k := by
  induction t generalizing signed valued width with
  | nil =>
    rw [exponentRest] at h
    split at h
    · cases h
      exact ⟨0, rfl, .nil _⟩
    · cases h
  | cons c t ih =>
    have hcons : ∀ {signed valued}, isNumberPart c = true →
        exponentRest signed valued (width + 1) t = some n →
        ∃ k, n = width + k ∧ Begins isNumberPart (c :: t) k := by
      intro signed valued hc h
      obtain ⟨k, rfl, hk⟩ := ih h
      exact ⟨k + 1, by omega, .cons hc hk⟩
    rw [exponentRest] at h
    split at h
    next hc =>
      split at h
      · cases h
      · refine hcons ?_ h
        simp only [Bool.and_eq_true, Bool.or_eq_true, beq_iff_eq] at hc
        rcases hc.1 with rfl | rfl <;> decide
    next =>
      split at h
      next hc => exact hcons (isNumberPart_of_isDigit hc) h
      next =>
        split at h
        next hc =>
          obtain rfl : c = '_' := by simpa using hc
          exact hcons (by decide) h
        next =>
          split at h
          · cases h
            exact ⟨0, rfl, .nil _⟩
          · cases h

theorem integerDigits_shape {base : Nat} {empty : Bool} {width n : Nat} {t : Text}
    (h : integerDigits base empty width t = some n) :
    ∃ k, n = width + k ∧ Begins isNumberPart t k ∧ (empty = true → k ≠ 0) := by
  induction t generalizing empty width with
  | nil =>
    rw [integerDigits] at h
    split at h
    · cases h
    next he =>
      cases h
      exact ⟨0, rfl, .nil _, fun hempty => absurd hempty he⟩
  | cons c t ih =>
    have hcons : ∀ {e}, isNumberPart c = true → integerDigits base e (width + 1) t = some n →
        ∃ k, n = width + k ∧ Begins isNumberPart (c :: t) k ∧ (empty = true → k ≠ 0) := by
      intro e hc h
      obtain ⟨k, rfl, hk, -⟩ := ih h
      exact ⟨k + 1, by omega, .cons hc hk, fun _ => by omega⟩
    rw [integerDigits] at h
    split at h
    next hc =>
      obtain rfl : c = '_' := by simpa using hc
      split at h
      · cases h
      · exact hcons (by decide) h
    next =>
      split at h
      next d hd =>
        split at h
        · exact hcons (by simp [isNumberPart, isHex, hd]) h
        · split at h
          · cases h
          · split at h
            · cases h
            next he =>
              cases h
              exact ⟨0, rfl, .nil _, fun hempty => absurd hempty he⟩
      next =>
        split at h
        · cases h
        next he =>
          cases h
          exact ⟨0, rfl, .nil _, fun hempty => absurd hempty he⟩

theorem isNumberPart_of_digit {c : Char} (h : (c.isDigit || c == '_') = true) :
    isNumberPart c = true := by
  rcases Bool.or_eq_true_iff.mp h with hc | hc
  · exact isNumberPart_of_isDigit hc
  · obtain rfl : c = '_' := by simpa using hc
    decide

theorem begins_fraction (t : Text) : Begins isNumberPart t (if isFractionPoint t = true then
    1 + ((t.drop 1).takeWhile fun c => c.isDigit || c == '_').length else 0) := by
  split
  next hpoint =>
    unfold isFractionPoint at hpoint
    split at hpoint
    · exact Begins.cons (by decide) (.nil _)
    · rw [Nat.add_comm]
      exact Begins.cons (by decide) (Begins.takeWhile (fun _ => isNumberPart_of_digit) _)
    · cases hpoint
  next => exact .nil _

theorem floatDigits?_shape {t : Text} {n : Nat} (h : floatDigits? t = some n) :
    Begins isNumberPart t n ∧ n ≠ 0 := by
  simp only [floatDigits?] at h
  split at h
  next hhead =>
    obtain ⟨whole, hwhole⟩ : ∃ m, (t.takeWhile fun c => c.isDigit || c == '_').length = m :=
      ⟨_, rfl⟩
    have hbegins : Begins isNumberPart t whole :=
      hwhole ▸ Begins.takeWhile (fun _ => isNumberPart_of_digit) t
    have hne : whole ≠ 0 := by
      cases t with
      | nil => cases hhead
      | cons c t =>
        have hc : c.isDigit = true := hhead
        rw [← hwhole, List.takeWhile_cons_of_pos (by rw [hc]; rfl)]
        exact Nat.succ_ne_zero _
    rw [hwhole] at h
    split at h
    · cases h
    have hpoint := begins_fraction (t.drop whole)
    generalize hplaces : (if isFractionPoint (t.drop whole) = true then
      1 + (((t.drop whole).drop 1).takeWhile fun c => c.isDigit || c == '_').length else 0) = places
      at h hpoint
    have hfront := hbegins.append hpoint
    split at h
    next c more hmore =>
      split at h
      next hc =>
        split at h
        next k hk =>
          cases h
          obtain ⟨m, rfl, hm⟩ := exponentRest_shape hk
          refine ⟨hfront.append ?_, by omega⟩
          rw [hmore, Nat.add_comm]
          refine .cons ?_ hm
          simp only [Bool.or_eq_true, beq_iff_eq] at hc
          rcases hc with rfl | rfl <;> decide
        next =>
          split at h
          · cases h
            exact ⟨hfront, by omega⟩
          · cases h
      next =>
        split at h
        · cases h
          exact ⟨hfront, by omega⟩
        · cases h
    next =>
      split at h
      · cases h
        exact ⟨hfront, by omega⟩
      · cases h
  next => cases h

theorem integer?_shape {t : Text} {n : Nat} (h : integer? t = some n) :
    Begins isNumberPart t n ∧ n ≠ 0 := by
  have hbase : Begins isNumberPart t (base t).2 := by
    unfold base
    split
    · exact .cons (by decide) (.cons (by decide) (.nil _))
    · exact .cons (by decide) (.cons (by decide) (.nil _))
    · exact .cons (by decide) (.cons (by decide) (.nil _))
    · exact .nil _
  simp only [integer?] at h
  obtain ⟨m, hm, rfl⟩ := Option.map_eq_some_iff.mp h
  obtain ⟨k, rfl, hk, hne⟩ := integerDigits_shape hm
  have := hne rfl
  rw [Nat.zero_add]
  exact ⟨hbase.append hk, by omega⟩

theorem suffixed?_shape {digits? : Measure} {t : Text} {n : Nat}
    (hdigits : ∀ m, digits? t = some m → Begins isNumberPart t m ∧ m ≠ 0)
    (h : suffixed? digits? t = some n) :
    ∃ front w rest, t = front ++ (w ++ rest) ∧ n = (front ++ w).length ∧ front ≠ [] ∧
      (∀ c ∈ front, isNumberPart c = true) ∧
      (∀ c ∈ w, isWordStart c = true ∨ isWordPart c = true) ∧
      rest.head?.all (!isWordPart ·) = true := by
  simp only [suffixed?, Option.bind_eq_bind, Option.bind_eq_some_iff] at h
  obtain ⟨m, hm, h⟩ := h
  obtain ⟨⟨front, u, rfl, rfl, hfront⟩, hne⟩ := hdigits m hm
  rw [List.drop_left] at h
  obtain ⟨w, rest, rfl, hwidth, hw, -⟩ := wordWidth_shape u
  rw [hwidth, ← List.length_append, ← List.append_assoc, List.drop_left] at h
  split at h
  · cases h
  next hrest =>
    cases h
    refine ⟨front, w, rest, rfl, rfl, ?_, hfront, hw, ?_⟩
    · rintro rfl
      exact hne rfl
    · cases rest with
      | nil => rfl
      | cons c rest => simpa using hrest

/-! ### Literals in quotes -/

/-- A literal in quotes, without its suffix. -/
inductive Quoted : Text → Prop
  | string {start content : Text} : start ∈ [[], ['b'], ['c']] → StringContent content →
    Quoted (start ++ '"' :: (content ++ ['"']))
  | raw {start content : Text} {hashes : Nat} : start ∈ [['r'], ['b', 'r'], ['c', 'r']] →
    ¬ '"' :: List.replicate hashes '#' <:+: content →
    Quoted (start ++ (List.replicate hashes '#' ++
      '"' :: (content ++ '"' :: List.replicate hashes '#')))
  | char {start : Text} {c : Char} : start ∈ [[], ['b']] → c ≠ '\\' →
    Quoted (start ++ ['\'', c, '\''])
  | escaped {start tail : Text} {c : Char} : start ∈ [[], ['b']] → c ∈ escapeMarks →
    (∀ x ∈ tail, isEscapePart x = true) →
    Quoted (start ++ '\'' :: '\\' :: c :: (tail ++ ['\'']))

theorem quoted?_shape {t : Text} {n : Nat} (h : quoted? t = some n) :
    ∃ text rest, t = text ++ rest ∧ n = text.length ∧ Quoted text := by
  have hstring : ∀ {form : StringForm} (start : Text) {t : Text}, start ∈ [[], ['b'], ['c']] →
      stringRest form (t.length + 1) (start.length + 1) t = some n →
      ∃ text rest, start ++ '"' :: t = text ++ rest ∧ n = text.length ∧ Quoted text := by
    intro form start t hstart h
    obtain ⟨content, rest, rfl, rfl, hcontent⟩ := stringRest_shape h
    exact ⟨_, rest, by simp, by simp; omega, .string hstart hcontent⟩
  have hraw : ∀ {form : StringForm} (start : Text) {t : Text},
      start ∈ [['r'], ['b', 'r'], ['c', 'r']] →
      (rawString? form t).map (· + start.length) = some n →
      ∃ text rest, start ++ t = text ++ rest ∧ n = text.length ∧ Quoted text := by
    intro form start t hstart h
    obtain ⟨m, hm, rfl⟩ := Option.map_eq_some_iff.mp h
    obtain ⟨hashes, content, rest, rfl, rfl, hcontent⟩ := rawString?_shape hm
    exact ⟨_, rest, by simp, by simp; omega, .raw hstart hcontent⟩
  have hchar : ∀ {form : StringForm} (start : Text) {t : Text}, start ∈ [[], ['b']] →
      (characterRest form t).map (· + (start.length + 1)) = some n →
      ∃ text rest, start ++ '\'' :: t = text ++ rest ∧ n = text.length ∧ Quoted text := by
    intro form start t hstart h
    obtain ⟨m, hm, rfl⟩ := Option.map_eq_some_iff.mp h
    rcases characterRest_shape hm with
      ⟨c, rest, rfl, rfl, hc⟩ | ⟨c, tail, rest, rfl, rfl, hc, htail⟩
    · exact ⟨_, rest, by simp, by simp; omega, .char hstart hc⟩
    · exact ⟨_, rest, by simp, by simp; omega, .escaped hstart hc htail⟩
  unfold quoted? at h
  split at h
  · exact hstring [] (by decide) h
  · exact hstring ['b'] (by decide) h
  · exact hraw ['b', 'r'] (by decide) h
  · exact hstring ['c'] (by decide) h
  · exact hraw ['c', 'r'] (by decide) h
  · exact hraw ['r'] (by decide) h
  · exact hchar ['b'] (by decide) h
  · exact hchar [] (by decide) h
  · cases h

end ClosureLint.Rust
