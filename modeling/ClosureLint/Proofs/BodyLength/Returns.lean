import ClosureLint.Proofs.Comment.Returns
import ClosureLint.Proofs.Source.Measure

/-! Files whose lines end with a carriage return and a newline. They measure like the files with
newlines alone: they have the same lines, the same of them carry code, and a closure that is moved
with the text is reported on in the same words. -/

namespace ClosureLint

namespace Text

/-- The text with a carriage return in front of each newline. -/
def withReturns (t : Text) : Text := t.flatMap fun c => if c = '\n' then ['\r', '\n'] else [c]

/-- Where an offset of a text comes to lie in the text with returns: each newline before it moves it
by a byte. -/
def offsetWithReturns (t : Text) (offset : Nat) : Nat := offset + (t.utf8.take offset).count 0x0a

theorem withReturns_cons (c : Char) (t : Text) :
    withReturns (c :: t) = (if c = '\n' then ['\r', '\n'] else [c]) ++ withReturns t := rfl

theorem withReturns_append (a b : Text) :
    withReturns (a ++ b) = withReturns a ++ withReturns b := List.flatMap_append

theorem count_withReturns (t : Text) : (withReturns t).count '\n' = t.count '\n' := by
  induction t with
  | nil => rfl
  | cons c t ih =>
    rw [withReturns_cons, List.count_append, ih]
    by_cases hc : c = '\n'
    · simp [hc, Nat.add_comm]
    · simp [hc]

theorem byteLength_withReturns (t : Text) :
    (withReturns t).byteLength = t.byteLength + t.count '\n' := by
  induction t with
  | nil => rfl
  | cons c t ih =>
    rw [withReturns_cons, byteLength_append, ih, byteLength_cons]
    by_cases hc : c = '\n'
    · have hsize : byteLength ['\r', '\n'] = 2 := rfl
      have hnewline : '\n'.utf8Size = 1 := rfl
      rw [hc, if_pos rfl, hsize, hnewline, List.count_cons_self]
      omega
    · rw [if_neg hc, List.count_cons_of_ne hc, byteLength_cons, byteLength_nil]
      omega

theorem utf8_withReturns (t : Text) : (withReturns t).utf8 = Comment.addReturns t.utf8 := by
  induction t with
  | nil => rfl
  | cons c t ih =>
    rw [withReturns_cons, utf8_append, ih, utf8_cons, Comment.addReturns_append]
    by_cases hc : c = '\n'
    · subst hc
      rfl
    · have hline : 0x0a ∉ String.utf8EncodeChar c := fun h =>
        hc ((mem_encode (c := '\n') (by decide) c).mp h).symm
      rw [if_neg hc, Comment.addReturns_eq_self hline]
      simp

/-- A cut of a text is moved to the cut of the text with returns. -/
theorem offsetWithReturns_byteLength (a b : Text) :
    (a ++ b).offsetWithReturns a.byteLength = (withReturns a).byteLength := by
  rw [offsetWithReturns, utf8_append, ← length_utf8, List.take_left, count_newline, length_utf8,
    byteLength_withReturns]

end Text

/-- The closure at the same place in the text with returns. -/
def Closure.withReturns (t : Text) (closure : Closure) : Closure where
  offset := t.offsetWithReturns closure.offset
  body.offset := t.offsetWithReturns closure.body.offset
  body.length := t.offsetWithReturns (closure.body.offset + closure.body.length) -
    t.offsetWithReturns closure.body.offset

namespace SourceText

variable {style : CommentStyle} {t : Text}

theorem lineRange?_withReturns {closure : Closure} {range : LineRange}
    (hlength : t.withReturns.byteLength < offsetBound)
    (h : (ofText t style).lineRange? closure.body = some range) :
    (ofText t.withReturns style).lineRange? (closure.withReturns t).body = some range := by
  obtain ⟨a, b, c, rfl, hspan, -, hstart, hstop⟩ := lineRange?_eq_some_iff.mp h
  have hbegin := Text.offsetWithReturns_byteLength a (b ++ c)
  have hend := Text.offsetWithReturns_byteLength (a ++ b) c
  rw [← List.append_assoc] at hbegin
  rw [Text.byteLength_append a b] at hend
  refine lineRange?_eq_some_iff.mpr
    ⟨a.withReturns, b.withReturns, c.withReturns, ?_, ?_, ?_, ?_, ?_⟩
  · rw [Text.withReturns_append, Text.withReturns_append]
  · rw [Closure.withReturns, hspan, hbegin, hend, Text.withReturns_append, Text.byteLength_append,
      Nat.add_sub_cancel_left]
  · rw [Text.withReturns_append, Text.withReturns_append, Text.byteLength_append] at hlength
    exact Nat.lt_of_le_of_lt (Nat.le_add_right _ _) hlength
  · rw [hstart, Text.count_withReturns]
  · rw [hstop, ← Text.withReturns_append, Text.count_withReturns]

theorem codeLines_withReturns (hn : style.Lacks '\n') (hr : style.Lacks '\r')
    (hliteral : Comment.LiteralsInLine style .start t.utf8) :
    (ofText t.withReturns style).lineCount = (ofText t style).lineCount ∧
      (ofText t.withReturns style).codeLines = (ofText t style).codeLines := by
  have hcount : (lineStarts t.withReturns).size = (lineStarts t).size := by
    rw [size_lineStarts, size_lineStarts, Text.count_withReturns]
  have hmarked : Comment.markedLines (Comment.turns style t.withReturns) =
      Comment.markedLines (Comment.turns style t) := by
    rw [Comment.turns, Comment.turns, Text.utf8_withReturns]
    exact (Comment.Follows.start t.utf8).markedLines_eq hn hr (Comment.unbroken_utf8 t) hliteral
  refine ⟨hcount, ?_⟩
  simp only [ofText, Comment.codeLines, hcount, hmarked]

end SourceText

namespace BodyLength

/-- A text measures like the same text with carriage returns in front of its newlines, if no
character literal in it holds a newline and the comment markers hold neither: it has as many lines,
the same of them carry code, and every closure whose body can be measured is reported on alike, at
the place where it is then. The text with the returns is one whose bytes can be counted. -/
theorem measures_withReturns (style : CommentStyle) (t : Text) (hnewline : style.Lacks '\n')
    (hreturn : style.Lacks '\r') (hliteral : Comment.LiteralsInLine style .start t.utf8)
    (hlength : t.withReturns.byteLength < offsetBound) :
    (SourceText.ofText t.withReturns style).lineCount = (SourceText.ofText t style).lineCount ∧
    (SourceText.ofText t.withReturns style).codeLines = (SourceText.ofText t style).codeLines ∧
    ∀ closure : Closure, ((SourceText.ofText t style).lineRange? closure.body).isSome →
      ∀ thresholds,
        evaluate (.ofText t.withReturns style) (closure.withReturns t) thresholds =
          (evaluate (.ofText t style) closure thresholds).map fun v =>
            { v with offset := t.offsetWithReturns v.offset } := by
  obtain ⟨hcount, hflags⟩ := SourceText.codeLines_withReturns hnewline hreturn hliteral
  refine ⟨hcount, hflags, fun closure hbody thresholds => ?_⟩
  obtain ⟨range, hrange⟩ := Option.isSome_iff_exists.mp hbody
  have heffective : (SourceText.ofText t.withReturns style).effectiveLines range =
      (SourceText.ofText t style).effectiveLines range := by
    rw [SourceText.effectiveLines, SourceText.effectiveLines, hflags]
  rw [evaluate_eq thresholds (SourceText.lineRange?_withReturns hlength hrange),
    evaluate_eq thresholds hrange, heffective]
  exact findingsAt_move t.offsetWithReturns thresholds closure.offset _

/-- A closure with an escaped quote, and with a newline that is escaped in a string. -/
def escapes : Text := "|x| [\n'\\'',\n\"\\\n\"]".toList

theorem measures_withReturns_escapes : CommentStyle.rust.Lacks '\n' ∧ CommentStyle.rust.Lacks '\r' ∧
    Comment.LiteralsInLine .rust .start escapes.utf8 ∧
    evaluate (.ofText escapes .rust) ⟨0, ⟨4, 13⟩⟩ [⟨.warning, 3⟩] ≠ [] ∧
      (SourceText.ofText escapes.withReturns .rust).codeLines =
        (SourceText.ofText escapes .rust).codeLines ∧
      evaluate (.ofText escapes.withReturns .rust) ⟨0, ⟨4, 16⟩⟩ [⟨.warning, 3⟩] =
        evaluate (.ofText escapes .rust) ⟨0, ⟨4, 13⟩⟩ [⟨.warning, 3⟩] := by
  have hnewline : CommentStyle.rust.Lacks '\n' := ⟨by decide, by decide, by decide⟩
  have hreturn : CommentStyle.rust.Lacks '\r' := ⟨by decide, by decide, by decide⟩
  have hliteral : Comment.LiteralsInLine .rust .start escapes.utf8 := by decide
  obtain ⟨-, hflags, hevaluate⟩ :=
    measures_withReturns .rust escapes hnewline hreturn hliteral (by decide)
  exact ⟨hnewline, hreturn, hliteral, by decide, hflags,
    hevaluate ⟨0, ⟨4, 13⟩⟩ (by decide) [⟨.warning, 3⟩]⟩

end BodyLength

end ClosureLint
