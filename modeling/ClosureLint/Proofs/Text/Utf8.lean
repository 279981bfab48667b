import ClosureLint.Text

/-! How a text and its UTF-8 form correspond: characters of ASCII are single bytes, and the bytes
of all other characters lie beyond ASCII, so whatever is written in ASCII can be found in either
form. -/

namespace ClosureLint.Text

theorem forall_of_all {P : Char → Prop} [DecidablePred P] {t : Text}
    (h : t.all (fun c => decide (P c)) = true) : ∀ c ∈ t, P c :=
  fun c hc => of_decide_eq_true (List.all_eq_true.mp h c hc)

theorem encode_ascii {c : Char} (h : c.toNat < 0x80) :
    String.utf8EncodeChar c = [UInt8.ofNat c.toNat] := by
  rw [String.utf8EncodeChar, if_pos (by show c.toNat ≤ 0x7f; omega)]
  rfl

theorem encode_high {c : Char} (h : 0x80 ≤ c.toNat) {b : UInt8}
    (hb : b ∈ String.utf8EncodeChar c) : 0x80 ≤ b := by
  have hv : c.val.toNat = c.toNat := rfl
  rw [UInt8.le_iff_toNat_le]
  simp only [String.utf8EncodeChar, hv] at hb
  rw [if_neg (by omega)] at hb
  split at hb
  · simp at hb; rcases hb with rfl | rfl <;> simp <;> omega
  split at hb
  · simp at hb; rcases hb with rfl | rfl | rfl <;> simp <;> omega
  · simp at hb; rcases hb with rfl | rfl | rfl | rfl <;> simp <;> omega

theorem encode_tail {c : Char} {x y : UInt8} {xs : List UInt8}
    (h : String.utf8EncodeChar c = x :: xs) (hy : y ∈ xs) : 0x80 ≤ y := by
  by_cases hc : c.toNat < 0x80
  · rw [encode_ascii hc] at h
    simp_all
  · exact encode_high (by omega) (h ▸ List.mem_cons_of_mem x hy)

theorem utf8_cons_ascii {c : Char} (h : c.toNat < 0x80) (t : Text) :
    utf8 (c :: t) = UInt8.ofNat c.toNat :: utf8 t := by
  rw [utf8_cons, encode_ascii h]
  rfl

theorem ofNat_inj {c d : Char} (hc : c.toNat < 0x80) (hd : d.toNat < 0x80)
    (h : UInt8.ofNat c.toNat = UInt8.ofNat d.toNat) : c = d := by
  have hn := congrArg UInt8.toNat h
  simp only [UInt8.toNat_ofNat'] at hn
  apply Char.ext
  apply UInt32.toNat.inj
  show c.toNat = d.toNat
  omega

theorem ofNat_lt {c : Char} (hc : c.toNat < 0x80) : UInt8.ofNat c.toNat < 0x80 := by
  rw [UInt8.lt_iff_toNat_lt, UInt8.toNat_ofNat']
  simp only [UInt8.reduceToNat]
  omega

theorem mem_utf8 {c : Char} (hc : c.toNat < 0x80) (t : Text) :
    UInt8.ofNat c.toNat ∈ utf8 t ↔ c ∈ t := by
  have hlt := ofNat_lt hc
  induction t with
  | nil => simp
  | cons d t ih =>
    rw [utf8_cons, List.mem_append, List.mem_cons]
    by_cases hd : d.toNat < 0x80
    · rw [encode_ascii hd, List.mem_singleton]
      exact or_congr ⟨ofNat_inj hc hd, fun h => by rw [h]⟩ ih
    · refine or_congr ⟨fun h => ?_, fun h => ?_⟩ ih
      · have := encode_high (by omega) h
        rw [UInt8.le_iff_toNat_le] at this
        rw [UInt8.lt_iff_toNat_lt] at hlt
        omega
      · exact absurd (h ▸ hc) hd

theorem mem_encode {c : Char} (hc : c.toNat < 0x80) (d : Char) :
    UInt8.ofNat c.toNat ∈ String.utf8EncodeChar d ↔ c = d := by
  have := mem_utf8 hc [d]
  simpa using this

theorem count_utf8 {c : Char} (hc : c.toNat < 0x80) (t : Text) :
    (utf8 t).count (UInt8.ofNat c.toNat) = t.count c := by
  induction t with
  | nil => rfl
  | cons d t ih =>
    rw [utf8_cons, List.count_append, ih, List.count_cons, Nat.add_comm]
    congr 1
    by_cases hd : d.toNat < 0x80
    · rw [encode_ascii hd, List.count_singleton]
      by_cases h : d = c
      · simp [h]
      · have hb : UInt8.ofNat d.toNat ≠ UInt8.ofNat c.toNat := fun e => h (ofNat_inj hd hc e)
        simp [h, hb]
    · have hne : d ≠ c := fun h => hd (h ▸ hc)
      have hno : UInt8.ofNat c.toNat ∉ String.utf8EncodeChar d :=
        fun h => hne ((mem_encode hc d).mp h).symm
      simp [hne, List.count_eq_zero.mpr hno]

theorem count_newline (t : Text) : (utf8 t).count 0x0a = t.count '\n' :=
  count_utf8 (c := '\n') (by decide) t

theorem exists_utf8_of_getLast? {t : Text} (h : t.getLast? = some '\n') :
    ∃ front, utf8 t = front ++ [0x0a] := by
  obtain ⟨u, rfl⟩ := List.getLast?_eq_some_iff.mp h
  exact ⟨utf8 u, utf8_append ..⟩

/-- A text begins with a marker in ASCII where its bytes do. -/
theorem isPrefixOf_utf8 {m : Text} (hm : ∀ c ∈ m, c.toNat < 0x80) (t : Text) :
    (utf8 m).isPrefixOf (utf8 t) = m.isPrefixOf t := by
  induction m generalizing t with
  | nil => simp [List.isPrefixOf]
  | cons c m ih =>
    have hc := hm c (by simp)
    rw [utf8_cons_ascii hc]
    cases t with
    | nil => simp [List.isPrefixOf]
    | cons d t =>
      by_cases hd : d.toNat < 0x80
      · rw [utf8_cons_ascii hd, List.isPrefixOf_cons_cons, List.isPrefixOf_cons_cons,
          ih fun x hx => hm x (by simp [hx])]
        by_cases h : c = d
        · simp [h]
        · have hb : UInt8.ofNat c.toNat ≠ UInt8.ofNat d.toNat := fun e => h (ofNat_inj hc hd e)
          rw [beq_false_of_ne hb, beq_false_of_ne h, Bool.false_and]
      · have hne : c ≠ d := fun h => hd (h ▸ hc)
        have hno : UInt8.ofNat c.toNat ∉ String.utf8EncodeChar d :=
          fun h => hne ((mem_encode hc d).mp h)
        rw [List.isPrefixOf_cons_cons, utf8_cons]
        cases he : String.utf8EncodeChar d with
        | nil => exact absurd he String.utf8EncodeChar_ne_nil
        | cons x xs =>
          have hx : UInt8.ofNat c.toNat ≠ x := by
            intro h
            simp [he, h] at hno
          rw [List.cons_append, List.isPrefixOf_cons_cons, beq_false_of_ne hx, beq_false_of_ne hne,
            Bool.false_and, Bool.false_and]

theorem head?_utf8 {c : Char} (hc : c.toNat < 0x80) (t : Text) :
    (utf8 t).head? = some (UInt8.ofNat c.toNat) ↔ t.head? = some c := by
  have := isPrefixOf_utf8 (m := [c]) (by simpa using hc) t
  rw [utf8_cons_ascii hc, utf8_nil] at this
  rw [← List.singleton_prefix_iff_head?_eq_some, ← List.singleton_prefix_iff_head?_eq_some,
    ← List.isPrefixOf_iff_prefix, ← List.isPrefixOf_iff_prefix, this]

theorem utf8_replicate {c : Char} (hc : c.toNat < 0x80) (n : Nat) :
    utf8 (List.replicate n c) = List.replicate n (UInt8.ofNat c.toNat) := by
  induction n with
  | zero => rfl
  | succ n ih => rw [List.replicate_succ, utf8_cons_ascii hc, ih, List.replicate_succ]

/-- The bytes of the characters before some place, where characters and bytes are listed from that
place backwards. -/
def utf8Back (behind : Text) : List UInt8 := (utf8 behind.reverse).reverse

theorem utf8Back_append (t behind : Text) :
    utf8Back (t.reverse ++ behind) = (utf8 t).reverse ++ utf8Back behind := by
  simp [utf8Back]

theorem utf8Back_cons (c : Char) (behind : Text) :
    utf8Back (c :: behind) = (String.utf8EncodeChar c).reverse ++ utf8Back behind := by
  have := utf8Back_append [c] behind
  simpa using this

end ClosureLint.Text
