import ClosureLint.Proofs.Source.Span
import ClosureLint.WhiteSpace

/-! Lines of nothing but white space. White space means nothing to the pass in any mode, so it
leaves such a line in the mode in which it comes to it. But what the pass takes for blank are five
bytes, and white space has more characters: the vertical tab, and all those beyond ASCII. One of
them makes its line a code line, unless the line is in a comment. -/

namespace ClosureLint

open Comment

namespace Comment

/-! ### White space under the conventions of Rust -/

variable {style : CommentStyle} {s : State} {line : Text} {rest : List UInt8} {n : Nat}

/-- A text of white space without a newline. -/
def IsWhite (line : Text) : Prop := ∀ c ∈ line, isWhiteSpace c = true ∧ c ≠ '\n'

instance (line : Text) : Decidable (IsWhite line) := List.decidableBAll _ _

theorem IsWhite.newline_not_mem (h : IsWhite line) : '\n' ∉ line := fun hn => (h _ hn).2 rfl

/-- White space in ASCII means nothing in any mode, but for the newline. -/
theorem byte_of_isWhiteSpace {c : Char} (hascii : c.toNat < 0x80) (hc : isWhiteSpace c = true)
    (hn : c ≠ '\n') : UInt8.ofNat c.toNat ∉ [0x0a, 0x2f, 0x2a, 0x72, 0x22, 0x27, 0x5c] := by
  refine ascii_forall (P := fun c => isWhiteSpace c = true → c ≠ '\n' →
    UInt8.ofNat c.toNat ∉ [0x0a, 0x2f, 0x2a, 0x72, 0x22, 0x27, 0x5c]) ?_ hascii hc hn
  decide

/-- The pass stays in its mode over white space, and outside comments it marks what it does not take
for blank. -/
theorem Crosses.white (h : s.owed = 0) (hwhite : IsWhite line) :
    Crosses .rust s line.utf8 rest s.mode (if s.mode.isCode then inkLines s.line line else []) := by
  induction line generalizing s with
  | nil => exact (Crosses.nil h).congr fun n => by rw [inkLines, ite_self]
  | cons c line ih =>
    obtain ⟨⟨hc, hn⟩, hline⟩ := List.forall_mem_cons.mp hwhite
    have hchar : Crosses .rust s (String.utf8EncodeChar c) (Text.utf8 line ++ rest) s.mode
        (if s.mode.isCode && !isBlankChar c then [s.line] else []) :=
      Crosses.char h (fun he => absurd he hn) fun hascii _ => by
        rw [step_plain (byte_of_isWhiteSpace hascii hc hn), isBlank_byte hascii]
    have htail := @ih (s.beyond (Text.utf8 [c]) s.mode) rfl hline
    have hcount : (s.beyond (Text.utf8 [c]) s.mode).line = s.line := by
      rw [State.line_beyond, List.count_singleton, if_neg (by simpa using hn), Nat.add_zero]
    have hmode : (s.beyond (Text.utf8 [c]) s.mode).mode = s.mode := rfl
    have hutf : Text.utf8 [c] = String.utf8EncodeChar c := List.append_nil _
    rw [hmode, hcount, hutf] at htail
    refine (hchar.append htail).congr fun n => ?_
    rw [inkLines, if_neg hn]
    cases s.mode.isCode <;> cases isBlankChar c <;> simp

/-- Behind a newline that is met in a turn of its own, the marks are on later lines. -/
theorem lt_of_mem_markedLines_newline (h : s.owed = 0)
    (hn : n ∈ markedLines (turnsFrom style s (0x0a :: rest))) : s.line < n := by
  rw [turnsFrom_cons, if_pos h, step_newline] at hn
  exact @le_of_mem_markedLines style (s.take 0x0a ⟨1, _, false, true⟩) rest n hn

end Comment

/-! ### The marks of a blank line -/

/-- A line of nothing but white space, with the lines in front of it and the rest of the text. -/
structure BlankLine (front line back : Text) : Prop where
  begins : front = [] ∨ front.getLast? = some '\n'
  white : IsWhite line
  ends : back = [] ∨ back.head? = some '\n'

/-- The state in which the pass comes from the text `front` to the text `rest`. -/
def stateBetween (front rest : Text) : State := stateAfter .rust .start front.utf8 rest.utf8

theorem markedLines_turns (front line back : Text) :
    markedLines (turns .rust (front ++ line ++ back)) =
      markedLines (turnsOver .rust .start front.utf8 (line ++ back).utf8) ++
        (markedLines (turnsOver .rust (stateBetween front (line ++ back)) line.utf8 back.utf8) ++
          markedLines (turnsFrom .rust
            (stateAfter .rust (stateBetween front (line ++ back)) line.utf8 back.utf8)
            back.utf8)) := by
  rw [turns, List.append_assoc, Text.utf8_append, turnsFrom_append, markedLines_append]
  rw [Text.utf8_append, turnsFrom_append, markedLines_append, ← Text.utf8_append]
  rfl

namespace BlankLine

variable {front line back : Text}

/-- If the pass has taken no newline in passing, it begins the line with a turn, and its line number
is right. -/
theorem stateBetween_place (h : BlankLine front line back)
    (hliteral : LiteralsInLineOver .rust .start front.utf8 (line ++ back).utf8) :
    (stateBetween front (line ++ back)).owed = 0 ∧
      (stateBetween front (line ++ back)).line = front.count '\n' := by
  have hstyle : CommentStyle.rust.Lacks '\n' := ⟨by decide, by decide, by decide⟩
  have hnone : ∀ bytes : List UInt8, 0x0a ∉ bytes.take State.start.owed := nofun
  constructor
  · rcases h.begins with rfl | hend
    · rfl
    · obtain ⟨u, hutf⟩ := Text.exists_utf8_of_getLast? hend
      rw [hutf] at hliteral
      rw [stateBetween, hutf]
      exact owed_stateAfter_newline hstyle hliteral (hnone _)
  · rw [stateBetween, (line_stateAfter hstyle hliteral (hnone _)).1, Text.count_newline]
    exact Nat.zero_add _

theorem not_mem_markedLines_front (h : BlankLine front line back) (rest : List UInt8) :
    front.count '\n' ∉ markedLines (turnsOver .rust .start front.utf8 rest) := by
  intro hn
  rcases h.begins with rfl | hend
  · cases hn
  · exact Nat.lt_irrefl _ (lt_count_of_mem_markedLines hend hn)

theorem not_mem_markedLines_back (h : BlankLine front line back) {s : State} (ho : s.owed = 0) :
    s.line ∉ markedLines (turnsFrom .rust s back.utf8) := by
  intro hn
  rcases h.ends with rfl | hend
  · cases hn
  · obtain ⟨t, rfl⟩ := List.head?_eq_some_iff.mp hend
    exact Nat.lt_irrefl _ (lt_of_mem_markedLines_newline ho hn)

theorem mem_markedLines_iff (h : BlankLine front line back)
    (hliteral : LiteralsInLineOver .rust .start front.utf8 (line ++ back).utf8) :
    front.count '\n' ∈ markedLines (turns .rust (front ++ line ++ back)) ↔
      (stateBetween front (line ++ back)).mode.isCode = true ∧
        ∃ c ∈ line, isBlankChar c = false := by
  obtain ⟨howed, hline⟩ := h.stateBetween_place hliteral
  have hcross := @Crosses.white _ _ back.utf8 howed h.white
  have hfront := h.not_mem_markedLines_front (line ++ back).utf8
  have hback := h.not_mem_markedLines_back (s := (stateBetween front (line ++ back)).beyond line.utf8
    (stateBetween front (line ++ back)).mode) rfl
  rw [State.line_beyond, hline, List.count_eq_zero.mpr h.white.newline_not_mem,
    Nat.add_zero] at hback
  rw [markedLines_turns, hcross.reaches, List.mem_append, List.mem_append, hcross.marks,
    or_iff_left hback, or_iff_right hfront, hline]
  split
  next hmode => simp [hmode, mem_inkLines_of_newline_not_mem h.white.newline_not_mem]
  next hmode => simp [hmode]

end BlankLine

/-! ### The count -/

/-- No range counts the line: the number of code lines in a range is that of the other ones. -/
def SourceText.CountsNowhere (file : SourceText) (k : Nat) : Prop :=
  ∀ range : LineRange, file.effectiveLines range =
    {j ∈ Finset.Icc range.start range.stop | j ≠ k ∧ file.codeLines[j]? = some true}.card

/-- The lines that no range counts are those without a flag. -/
theorem SourceText.countsNowhere_iff (file : SourceText) (k : Nat) :
    file.CountsNowhere k ↔ file.codeLines[k]? ≠ some true := by
  constructor
  · -- The range of this line alone would count it.
    intro h hflag
    have hone := h ⟨k, k, Nat.le_refl k⟩
    rw [effectiveLines_eq_card_flagged, Finset.Icc_self, Finset.filter_singleton, if_pos hflag,
      Finset.filter_singleton, if_neg fun hk => hk.1 rfl] at hone
    cases hone
  · intro hflag range
    rw [effectiveLines_eq_card_flagged]
    congr 1
    refine Finset.filter_congr fun j _ => (and_iff_right_of_imp ?_).symm
    rintro hj rfl
    exact hflag hj

/-- What becomes of a blank line. If no character literal that the pass reads in front of it holds a
newline, the line is without a flag if and only if it begins in a comment, or all its white space is
among the five blanks that the pass knows. And in any case, it is without a flag if and only if no
range counts it. -/
theorem blankLine_flag (front line back : Text) (h : BlankLine front line back) :
    (LiteralsInLineOver .rust .start front.utf8 (line ++ back).utf8 →
      ((SourceText.ofText (front ++ line ++ back) .rust).codeLines[front.count '\n']? = some false ↔
        (stateBetween front (line ++ back)).mode.isCode = false ∨
          ∀ c ∈ line, isBlankChar c = true)) ∧
    ((SourceText.ofText (front ++ line ++ back) .rust).codeLines[front.count '\n']? = some false ↔
      (SourceText.ofText (front ++ line ++ back) .rust).CountsNowhere (front.count '\n')) := by
  have hk : front.count '\n' ≤ (front ++ line ++ back).count '\n' := by
    rw [List.append_assoc, List.count_append]
    exact Nat.le_add_right ..
  rw [SourceText.countsNowhere_iff, SourceText.getElem?_codeLines hk, ne_eq, Option.some.injEq,
    Option.some.injEq, decide_eq_true_eq, decide_eq_false_iff_not]
  refine ⟨fun hliteral => ?_, Iff.rfl⟩
  rw [h.mem_markedLines_iff hliteral, not_and_or, Bool.not_eq_true]
  simp

def opened : Text := "'\\n' /*\n".toList

/-- A vertical tab and an ideographic space. -/
def wide : Text := "\x0b\u3000".toList

def closed : Text := "\n*/ y".toList

theorem blankLine_flag_wide : BlankLine opened wide closed ∧
    LiteralsInLineOver .rust .start opened.utf8 (wide ++ closed).utf8 ∧
    (SourceText.ofText (opened ++ wide ++ closed) .rust).codeLines[1]? = some false ∧
    (SourceText.ofText (opened ++ wide ++ closed) .rust).CountsNowhere 1 := by
  have hblank : BlankLine opened wide closed := ⟨by decide, by decide, by decide⟩
  have hliteral : LiteralsInLineOver .rust .start opened.utf8 (wide ++ closed).utf8 := by decide
  obtain ⟨hflag, hcount⟩ := blankLine_flag opened wide closed hblank
  have hfalse := (hflag hliteral).mpr (.inl (by decide))
  exact ⟨hblank, hliteral, hfalse, hcount.mp hfalse⟩

/-- Outside comments, the vertical tab is code. -/
example : (SourceText.ofText "x\n\x0b\ny".toList .rust).codeLines = #[true, true, true] := by
  decide

/-- A newline in a character literal is not counted, and the mark behind it is on the empty line. -/
example : (SourceText.ofText "'\\\n'\n\ny".toList .rust).codeLines =
    #[true, false, true, false] := by
  decide

end ClosureLint
