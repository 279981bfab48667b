import ClosureLint.Proofs.Comment.Byte

/-! What a turn takes of a line's end. The bytes of a turn are those of a marker, of the begin or end
of a literal, of an escape or of a character literal, and where no marker holds a newline, only a
character literal can have one among them. -/

namespace ClosureLint

/-- The character stands in no comment marker. -/
structure CommentStyle.Lacks (style : CommentStyle) (c : Char) : Prop where
  line : c ∉ style.line
  blockOpen : c ∉ style.blockOpen
  blockClose : c ∉ style.blockClose

namespace Comment

/-- The turn reads a character literal: no other turn is outside comments and strings before and
after it and takes more than one byte. -/
def Turn.isCharLiteral (t : Turn) : Bool :=
  decide (t.state.mode = .code ∧ t.step.next = .code ∧ 1 < t.step.width)

/-- The bytes that a turn takes, where `bytes` are those from `offset` on. -/
def Turn.taken (t : Turn) (offset : Nat) (bytes : List UInt8) : List UInt8 :=
  (bytes.drop (t.state.offset - offset)).take t.step.width

/-- No character literal that the pass reads from a state on holds a newline. -/
def LiteralsInLine (style : CommentStyle) (s : State) (bytes : List UInt8) : Prop :=
  ∀ t ∈ turnsFrom style s bytes, t.isCharLiteral = true → 0x0a ∉ t.taken s.offset bytes

instance (style : CommentStyle) (s : State) (bytes : List UInt8) :
    Decidable (LiteralsInLine style s bytes) :=
  inferInstanceAs (Decidable (∀ t ∈ turnsFrom style s bytes, _))

variable {style : CommentStyle} {s : State} {m : Mode} {behind front rest bytes : List UInt8}
  {b : UInt8}

theorem offset_le_of_mem_turnsOver {t : Turn} (h : t ∈ turnsOver style s front rest) :
    s.offset ≤ t.state.offset := by
  induction front generalizing s with
  | nil => cases h
  | cons b front ih =>
    rw [turnsOver] at h
    split at h
    · rcases List.mem_cons.mp h with rfl | h
      · exact Nat.le_refl _
      · exact Nat.le_of_succ_le (ih h)
    · exact Nat.le_of_succ_le (ih h)

theorem offset_le_of_mem_turnsFrom {t : Turn} (h : t ∈ turnsFrom style s bytes) :
    s.offset ≤ t.state.offset := by
  rw [turnsFrom_eq_turnsOver] at h
  exact offset_le_of_mem_turnsOver h

/-- What the turns behind a byte take does not depend on that byte. -/
theorem Turn.taken_cons {t : Turn} {offset : Nat} (h : offset + 1 ≤ t.state.offset) :
    t.taken offset (b :: rest) = t.taken (offset + 1) rest := by
  rw [taken, taken, show t.state.offset - offset = t.state.offset - (offset + 1) + 1 by omega,
    List.drop_succ_cons]

/-- No character literal that the pass reads in the bytes `front`, with `rest` ahead, holds a
newline. -/
def LiteralsInLineOver (style : CommentStyle) (s : State) (front rest : List UInt8) : Prop :=
  ∀ t ∈ turnsOver style s front rest, t.isCharLiteral = true → 0x0a ∉ t.taken s.offset (front ++ rest)

instance (style : CommentStyle) (s : State) (front rest : List UInt8) :
    Decidable (LiteralsInLineOver style s front rest) :=
  inferInstanceAs (Decidable (∀ t ∈ turnsOver style s front rest, _))

namespace LiteralsInLineOver

theorem head (h : LiteralsInLineOver style s (b :: front) rest) (ho : s.owed = 0)
    (hm : s.mode = .code) (hnext : (step style s.mode s.behind b (front ++ rest)).next = .code)
    (hwidth : 1 < (step style s.mode s.behind b (front ++ rest)).width) :
    0x0a ∉ (b :: (front ++ rest)).take (step style s.mode s.behind b (front ++ rest)).width := by
  have hturn : ⟨s, step style s.mode s.behind b (front ++ rest)⟩ ∈
      turnsOver style s (b :: front) rest := by
    rw [turnsOver, if_pos ho]
    exact List.mem_cons_self ..
  have htaken := h _ hturn (decide_eq_true ⟨hm, hnext, hwidth⟩)
  rwa [Turn.taken, Nat.sub_self, List.drop_zero] at htaken

theorem take (h : LiteralsInLineOver style s (b :: front) rest) (ho : s.owed = 0) :
    LiteralsInLineOver style (s.take b (step style s.mode s.behind b (front ++ rest))) front rest := by
  intro t ht hliteral
  have hle : s.offset + 1 ≤ t.state.offset := offset_le_of_mem_turnsOver ht
  have htaken := h t (by rw [turnsOver, if_pos ho]; exact List.mem_cons_of_mem _ ht) hliteral
  rwa [List.cons_append, Turn.taken_cons hle] at htaken

theorem pass (h : LiteralsInLineOver style s (b :: front) rest) (ho : s.owed ≠ 0) :
    LiteralsInLineOver style (s.pass b) front rest := by
  intro t ht hliteral
  have hle : s.offset + 1 ≤ t.state.offset := offset_le_of_mem_turnsOver ht
  have htaken := h t (by rw [turnsOver, if_neg ho]; exact ht) hliteral
  rwa [List.cons_append, Turn.taken_cons hle] at htaken

theorem left {a b : List UInt8} (h : LiteralsInLineOver style s (a ++ b) rest) :
    LiteralsInLineOver style s a (b ++ rest) := by
  intro t ht
  rw [← List.append_assoc]
  refine h t ?_
  rw [turnsOver_append]
  exact List.mem_append_left _ ht

end LiteralsInLineOver

namespace LiteralsInLine

theorem iff_over : LiteralsInLine style s bytes ↔ LiteralsInLineOver style s bytes [] := by
  rw [LiteralsInLine, LiteralsInLineOver, turnsFrom_eq_turnsOver, List.append_nil]

theorem head (h : LiteralsInLine style s (b :: rest)) (ho : s.owed = 0) (hm : s.mode = .code)
    (hnext : (step style s.mode s.behind b rest).next = .code)
    (hwidth : 1 < (step style s.mode s.behind b rest).width) :
    0x0a ∉ (b :: rest).take (step style s.mode s.behind b rest).width := by
  have hhead := (iff_over.mp h).head ho hm
  rw [List.append_nil] at hhead
  exact hhead hnext hwidth

theorem take (h : LiteralsInLine style s (b :: rest)) (ho : s.owed = 0) :
    LiteralsInLine style (s.take b (step style s.mode s.behind b rest)) rest := by
  have htake := (iff_over.mp h).take ho
  rw [List.append_nil] at htake
  exact iff_over.mpr htake

theorem pass (h : LiteralsInLine style s (b :: rest)) (ho : s.owed ≠ 0) :
    LiteralsInLine style (s.pass b) rest :=
  iff_over.mpr ((iff_over.mp h).pass ho)

end LiteralsInLine

/-! ### The bytes of a turn -/

theorem take_markerWidth {marker : Text} (h : occurs marker bytes = true) :
    bytes.take (markerWidth marker) = marker.utf8 := by
  obtain ⟨tail, rfl⟩ := List.isPrefixOf_iff_prefix.mp (Bool.and_eq_true_iff.mp h).2
  rw [markerWidth, ← Text.length_utf8, List.take_left]

theorem newline_not_mem_marker {marker : Text} (hmarker : '\n' ∉ marker)
    (h : occurs marker bytes = true) : 0x0a ∉ bytes.take (markerWidth marker) := by
  rw [take_markerWidth h]
  exact mt (Text.mem_utf8 (c := '\n') (by decide) marker).mp hmarker

theorem rawHashes?_eq_some {hashes : Nat} (h : rawHashes? behind b rest = some hashes) :
    b = 0x72 ∧ ∃ tail, rest = List.replicate hashes 0x23 ++ 0x22 :: tail := by
  simp only [rawHashes?] at h
  split at h
  next hr =>
    rw [Option.ite_none_right_eq_some, Option.some.injEq] at h
    obtain ⟨hquote, hlen⟩ := h
    have hrun : rest.takeWhile (· == 0x23) = List.replicate hashes 0x23 := by
      refine List.eq_replicate_iff.mpr ⟨hlen, fun x hx => ?_⟩
      simpa using List.all_eq_true.mp List.all_takeWhile x hx
    have hrest := @List.takeWhile_append_dropWhile _ (· == (0x23 : UInt8)) rest
    rw [hlen] at hquote
    refine ⟨by simpa using (Bool.and_eq_true_iff.mp hr).1, ?_⟩
    rw [hrun] at hrest
    rw [← hrest, List.getElem?_append_right (by simp), List.length_replicate, Nat.sub_self] at hquote
    cases htail : rest.dropWhile (· == 0x23) with
    | nil => simp [htail] at hquote
    | cons x tail =>
      obtain rfl : x = 0x22 := by simpa [htail] using hquote
      exact ⟨tail, by rw [← htail, hrest]⟩
  next => cases h

theorem charWidth_pos (x : UInt8) : 0 < charWidth x := by
  rw [charWidth]
  repeat' split
  all_goals decide

theorem charLiteralWidth?_escape (y : UInt8) (tail : List UInt8) :
    charLiteralWidth? 0x27 (0x5c :: y :: tail) =
      ((tail.take escapeReach).findIdx? (· == 0x27)).map (· + 4) := rfl

theorem charLiteralWidth?_byte {x : UInt8} (hq : x ≠ 0x27) (hs : x ≠ 0x5c) (hn : x ≠ 0x0a)
    (tail : List UInt8) : charLiteralWidth? 0x27 (x :: tail) =
      if (x :: tail)[charWidth x]? = some 0x27 then some (charWidth x + 2) else none := by
  rw [charLiteralWidth?]
  · rfl
  all_goals simp_all

section Taken

variable (hb : b ≠ 0x0a)

include hb

theorem newline_not_mem_one : 0x0a ∉ (b :: rest).take 1 := by simpa using hb.symm

theorem newline_not_mem_stepBlock (hstyle : style.Lacks '\n') (depth : Nat) :
    0x0a ∉ (b :: rest).take (stepBlock style depth (b :: rest)).width := by
  rw [stepBlock]
  split
  next h => exact newline_not_mem_marker hstyle.blockOpen (Bool.and_eq_true_iff.mp h).2
  next =>
    split
    next h => exact newline_not_mem_marker hstyle.blockClose h
    next => exact newline_not_mem_one hb

theorem newline_not_mem_stepQuoted : 0x0a ∉ (b :: rest).take (stepQuoted b rest).width := by
  rw [stepQuoted]
  split
  next h =>
    have hnext := (Bool.and_eq_true_iff.mp h).2
    cases rest with
    | nil => cases hnext
    | cons x rest =>
      have hx : x ≠ 0x0a := by simpa using hnext
      simp [Ne.symm hb, Ne.symm hx]
  next => split <;> exact newline_not_mem_one hb

theorem newline_not_mem_stepRaw (hashes : Nat) :
    0x0a ∉ (b :: rest).take (stepRaw hashes b rest).width := by
  rw [stepRaw]
  split
  next h =>
    obtain ⟨tail, rfl⟩ := List.isPrefixOf_iff_prefix.mp (Bool.and_eq_true_iff.mp h).2
    have htake : (b :: (List.replicate hashes 0x23 ++ tail)).take (1 + hashes) =
        b :: List.replicate hashes 0x23 := by
      rw [Nat.add_comm, List.take_succ_cons, List.take_left' (List.length_replicate ..)]
    simp [htake, Ne.symm hb, List.mem_replicate]
  next => exact newline_not_mem_one hb

theorem newline_not_mem_stepCode (hstyle : style.Lacks '\n')
    (hliteral : (stepCode style behind b rest).next = .code →
      1 < (stepCode style behind b rest).width →
        0x0a ∉ (b :: rest).take (stepCode style behind b rest).width) :
    0x0a ∉ (b :: rest).take (stepCode style behind b rest).width := by
  rw [stepCode] at hliteral ⊢
  split
  next h => exact newline_not_mem_marker hstyle.line h
  next hline =>
    rw [if_neg hline] at hliteral
    split
    next h => exact newline_not_mem_marker hstyle.blockOpen h
    next hopen =>
      rw [if_neg hopen] at hliteral
      split
      next hashes h =>
        obtain ⟨rfl, tail, rfl⟩ := rawHashes?_eq_some (Option.ite_none_right_eq_some.mp h).2
        have htake : (0x72 :: (List.replicate hashes 0x23 ++ 0x22 :: tail)).take (hashes + 2) =
            (0x72 :: List.replicate hashes 0x23) ++ [0x22] := by
          rw [List.take_succ_cons, List.take_append, List.length_replicate,
            show hashes + 1 - hashes = 1 by omega]
          simp
        simp [htake, List.mem_replicate]
      next hraw =>
        rw [hraw] at hliteral
        simp only at hliteral
        split
        · exact newline_not_mem_one hb
        next hquote =>
          rw [if_neg hquote] at hliteral
          split
          next width h =>
            rw [h] at hliteral
            by_cases hwidth : 1 < width
            · exact hliteral rfl hwidth
            · exact fun hmem => newline_not_mem_one hb
                (List.take_subset_take_left _ (Nat.le_of_not_lt hwidth) hmem)
          next => exact newline_not_mem_one hb

/-- A turn that does not stand on a newline takes none, except in a character literal. -/
theorem newline_not_mem_take (hstyle : style.Lacks '\n')
    (hliteral : m = .code → (step style m behind b rest).next = .code →
      1 < (step style m behind b rest).width →
        0x0a ∉ (b :: rest).take (step style m behind b rest).width) :
    0x0a ∉ (b :: rest).take (step style m behind b rest).width := by
  have hne : ¬ (b == 0x0a) = true := by simpa using hb
  simp only [step, if_neg hne] at hliteral ⊢
  cases m with
  | lineComment => exact newline_not_mem_one hb
  | block depth => exact newline_not_mem_stepBlock hb hstyle depth
  | quoted => exact newline_not_mem_stepQuoted hb
  | rawQuoted hashes => exact newline_not_mem_stepRaw hb hashes
  | code => exact newline_not_mem_stepCode hb hstyle (hliteral rfl)

end Taken

/-! ### Characters -/

/-- No newline interrupts the bytes of a character. -/
def Unbroken : List UInt8 → Prop
  | [] => True
  | b :: rest => 0x0a ∉ rest.take (charWidth b - 1) ∧ Unbroken rest

theorem charWidth_tail {c : Char} {x y : UInt8} {xs : List UInt8}
    (h : String.utf8EncodeChar c = x :: xs) (hy : y ∈ xs) : charWidth y = 1 := by
  have hv : c.val.toNat = c.toNat := rfl
  rw [charWidth, if_pos]
  rw [UInt8.lt_iff_toNat_lt]
  simp only [String.utf8EncodeChar, hv] at h
  repeat' split at h
  all_goals
    simp only [List.cons.injEq] at h
    obtain ⟨rfl, rfl⟩ := h
    simp at hy
  · subst hy
    simp
    omega
  · rcases hy with rfl | rfl <;> simp <;> omega
  · rcases hy with rfl | rfl | rfl <;> simp <;> omega

theorem Unbroken.append_high {front : List UInt8} (h : ∀ y ∈ front, charWidth y = 1)
    (hrest : Unbroken rest) : Unbroken (front ++ rest) := by
  induction front with
  | nil => exact hrest
  | cons y front ih =>
    obtain ⟨hy, hfront⟩ := List.forall_mem_cons.mp h
    exact ⟨by simp [hy], ih hfront⟩

theorem unbroken_utf8 (t : Text) : Unbroken t.utf8 := by
  induction t with
  | nil => trivial
  | cons c t ih =>
    rw [Text.utf8_cons]
    cases h : String.utf8EncodeChar c with
    | nil => exact absurd h String.utf8EncodeChar_ne_nil
    | cons x xs =>
      have hlen : charWidth x - 1 = xs.length := by
        have := String.length_utf8EncodeChar c
        rw [h, List.length_cons] at this
        rw [charWidth_lead c h]
        omega
      refine ⟨?_, Unbroken.append_high (fun y hy => charWidth_tail h hy) ih⟩
      rw [hlen, List.append_eq, List.take_left]
      intro hmem
      exact absurd (Text.encode_tail h hmem) (by decide)

end Comment

end ClosureLint
