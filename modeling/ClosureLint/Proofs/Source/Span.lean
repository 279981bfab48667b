import ClosureLint.Proofs.Comment.CodeBytes
import ClosureLint.Proofs.Source.Measure
import Mathlib.Order.Interval.Finset.Nat

/-! What a span measures. The lines of a span are counted as wholes, with whatever else stands in
the first and the last of them. But where the first and the last byte of the span are code, these two
lines have code inside the span, and all lines between them belong to the span alone. So the number
is that of the lines on which the span itself has code, and it is the same wherever the span's bytes
stand. -/

namespace ClosureLint

open Comment (lineAt isCodeByte markedLines turns LiteralsInLine)

variable {style : CommentStyle} {text : Text} {span : ByteSpan} {range : LineRange} {k : Nat}

theorem SourceText.effectiveLines_eq_card_flagged (file : SourceText) (range : LineRange) :
    file.effectiveLines range =
      (Finset.filter (fun k => file.codeLines[k]? = some true)
        (Finset.Icc range.start range.stop)).card := by
  rw [effectiveLines_eq_countP, List.countP_eq_length_filter,
    ← List.toFinset_card_of_nodup ((List.nodup_range' ..).filter _)]
  congr 1
  ext k
  rw [List.mem_toFinset, List.mem_filter, List.mem_range'_1, decide_eq_true_eq, Finset.mem_filter,
    Finset.mem_Icc]
  have := range.start_le_stop
  exact and_congr_left fun _ => by omega

/-! ### Lines of offsets -/

theorem lineAt_mono (text : Text) {i j : Nat} (h : i ≤ j) : lineAt text i ≤ lineAt text j :=
  ((List.take_prefix_take_left h).sublist).count_le _

theorem lineAt_byteLength (a b : Text) : lineAt (a ++ b) a.byteLength = a.count '\n' :=
  Text.count_take_utf8 a b

theorem lineAt_succ {i : Nat} (h : isCodeByte style text i = true) :
    lineAt text (i + 1) = lineAt text i := by
  obtain ⟨⟨b, hb, hblank⟩, -⟩ := Comment.isCodeByte_eq_true_iff.mp h
  have hne : b ≠ 0x0a := by
    rintro rfl
    cases hblank
  rw [lineAt, List.take_add_one, hb, List.count_append, Option.toList_some, List.count_singleton,
    if_neg (by simpa using hne), Nat.add_zero]
  rfl

/-- The lines of the code bytes of a span. -/
def codeLinesIn (style : CommentStyle) (text : Text) (span : ByteSpan) : Finset Nat :=
  {i ∈ Finset.Ico span.offset (span.offset + span.length) | isCodeByte style text i}.image
    (lineAt text)

theorem mem_codeLinesIn : k ∈ codeLinesIn style text span ↔
    ∃ i, span.offset ≤ i ∧ i < span.offset + span.length ∧ isCodeByte style text i = true ∧
      lineAt text i = k := by
  simp only [codeLinesIn, Finset.mem_image, Finset.mem_filter, Finset.mem_Ico, and_assoc]

/-- A span that begins and ends with code and can be measured, in a text in which no comment marker
and no character literal holds a newline. -/
structure CodeSpan (style : CommentStyle) (text : Text) (span : ByteSpan) (range : LineRange) :
    Prop where
  lacks : style.Lacks '\n'
  literals : LiteralsInLine style .start text.utf8
  measured : (SourceText.ofText text style).lineRange? span = some range
  pos : 0 < span.length
  first : isCodeByte style text span.offset = true
  last : isCodeByte style text (span.offset + span.length - 1) = true

namespace CodeSpan

/-- The lines of a span are those from its first byte to its last one. -/
theorem lines (h : CodeSpan style text span range) :
    range.start = lineAt text span.offset ∧
      range.stop = lineAt text (span.offset + span.length - 1) ∧ range.stop ≤ text.count '\n' := by
  obtain ⟨a, b, c, htext, hspan, -, hstart, hstop⟩ :=
    SourceText.lineRange?_eq_some_iff.mp h.measured
  have hend : (a ++ b).byteLength = span.offset + span.length - 1 + 1 := by
    have := h.pos
    rw [hspan] at this ⊢
    rw [Text.byteLength_append]
    simp only at this ⊢
    omega
  refine ⟨?_, ?_, ?_⟩
  · rw [hstart, hspan, htext, List.append_assoc, lineAt_byteLength]
  · rw [← lineAt_succ h.last, ← hend, hstop, htext, lineAt_byteLength]
  · rw [hstop, htext]
    exact (List.prefix_append (a ++ b) c).sublist.count_le _

/-- In the lines of a span, the marked ones are those on which the span has code. -/
theorem mem_markedLines (h : CodeSpan style text span range) :
    (range.start ≤ k ∧ k ≤ range.stop ∧ k ∈ markedLines (turns style text)) ↔
      k ∈ codeLinesIn style text span := by
  obtain ⟨hstart, hstop, -⟩ := h.lines
  have hpos := h.pos
  rw [Comment.mem_markedLines_iff h.lacks h.literals, mem_codeLinesIn]
  constructor
  · rintro ⟨hlow, hhigh, i, hi, rfl⟩
    rcases Nat.lt_or_ge i span.offset with hbefore | hfrom
    · -- A code byte in front of the span can only be on its first line.
      have := lineAt_mono text (Nat.le_of_lt hbefore)
      exact ⟨span.offset, Nat.le_refl _, by omega, h.first, by omega⟩
    rcases Nat.lt_or_ge i (span.offset + span.length) with hin | hbehind
    · exact ⟨i, hfrom, hin, hi, rfl⟩
    · have := lineAt_mono text (show span.offset + span.length - 1 ≤ i by omega)
      exact ⟨_, by omega, by omega, h.last, by omega⟩
  · rintro ⟨i, hlow, hhigh, hi, rfl⟩
    have hfirst := lineAt_mono text hlow
    have hlast := lineAt_mono text (show i ≤ span.offset + span.length - 1 by omega)
    exact ⟨by omega, by omega, i, hi, rfl⟩

/-- A span measures the number of lines on which it has code. -/
theorem effectiveLines_eq (h : CodeSpan style text span range) :
    (SourceText.ofText text style).effectiveLines range = (codeLinesIn style text span).card := by
  rw [SourceText.effectiveLines_eq_card_flagged]
  congr 1
  ext k
  rw [Finset.mem_filter, Finset.mem_Icc, and_assoc, ← h.mem_markedLines]
  refine and_congr_right fun _ => and_congr_right fun hhigh => ?_
  rw [SourceText.getElem?_codeLines (Nat.le_trans hhigh h.lines.2.2), Option.some.injEq,
    decide_eq_true_eq]

end CodeSpan

/-! ### The same span elsewhere -/

/-- The number of a span's lines with code, counted from its own first line. -/
theorem card_codeLinesIn (style : CommentStyle) (text : Text) (span : ByteSpan) :
    (codeLinesIn style text span).card =
      (({i ∈ Finset.range span.length | isCodeByte style text (span.offset + i)}).image fun i =>
        (((text.utf8.drop span.offset).take span.length).take i).count 0x0a).card := by
  refine Eq.trans ?_ (Finset.card_image_of_injective _ (add_right_injective
    (lineAt text span.offset)))
  congr 1
  ext k
  rw [mem_codeLinesIn]
  simp only [Finset.mem_image, Finset.mem_filter, Finset.mem_range]
  have hline : ∀ i < span.length, lineAt text (span.offset + i) = lineAt text span.offset +
      (((text.utf8.drop span.offset).take span.length).take i).count 0x0a := by
    intro i hi
    rw [lineAt, lineAt, List.take_add, List.count_append, List.take_take,
      Nat.min_eq_left (Nat.le_of_lt hi)]
  constructor
  · rintro ⟨i, hlow, hhigh, hi, rfl⟩
    obtain ⟨n, rfl⟩ := Nat.exists_eq_add_of_le hlow
    have hn : n < span.length := by omega
    exact ⟨_, ⟨n, ⟨hn, hi⟩, rfl⟩, (hline n hn).symm⟩
  · rintro ⟨-, ⟨i, ⟨hi, hcode⟩, rfl⟩, rfl⟩
    exact ⟨span.offset + i, Nat.le_add_right _ _, by omega, hcode, hline i hi⟩

/-- The two spans hold the same bytes, and the same ones of them are code. -/
structure SameInside (style : CommentStyle) (text : Text) (span : ByteSpan) (text' : Text)
    (span' : ByteSpan) : Prop where
  length : span'.length = span.length
  bytes : (text'.utf8.drop span'.offset).take span'.length =
    (text.utf8.drop span.offset).take span.length
  code : ∀ i < span.length,
    isCodeByte style text' (span'.offset + i) = isCodeByte style text (span.offset + i)

theorem SameInside.card_eq {text' : Text} {span' : ByteSpan}
    (h : SameInside style text span text' span') :
    (codeLinesIn style text' span').card = (codeLinesIn style text span).card := by
  rw [card_codeLinesIn, card_codeLinesIn, h.bytes, h.length]
  congr 2
  ext i
  simp only [Finset.mem_filter, Finset.mem_range]
  exact and_congr_right fun hi => by rw [h.code i hi]

/-- Counting whole lines measures a span itself, if its first and last bytes are code: the number of
code lines is the number of lines on which a byte of the span is code. What else stands in the first
or the last line does not count: in the lines of the span, the flagged ones are those on which the
span has code, and the number is the same for a span of the same bytes and code bytes between any
other text. -/
theorem effectiveLines_eq_card (style : CommentStyle) (text : Text) (span : ByteSpan)
    (range : LineRange) (h : CodeSpan style text span range) :
    (SourceText.ofText text style).effectiveLines range = (codeLinesIn style text span).card ∧
    (∀ k, range.start ≤ k → k ≤ range.stop →
      ((SourceText.ofText text style).codeLines[k]? = some true ↔
        k ∈ codeLinesIn style text span)) ∧
    ∀ text' span' range', CodeSpan style text' span' range' →
      SameInside style text span text' span' →
      (SourceText.ofText text' style).effectiveLines range' =
        (SourceText.ofText text style).effectiveLines range := by
  refine ⟨h.effectiveLines_eq, fun k hlow hhigh => ?_, fun text' span' range' h' hsame => ?_⟩
  · have hk : k < (lineStarts text).size := by
      have := h.lines.2.2
      rw [size_lineStarts]
      omega
    have hflag : (SourceText.ofText text style).codeLines[k]? =
        some (decide (k ∈ markedLines (turns style text))) := Comment.getElem?_flags hk _
    rw [hflag, Option.some.injEq, decide_eq_true_eq, ← h.mem_markedLines]
    exact ⟨fun hmem => ⟨hlow, hhigh, hmem⟩, fun hmem => hmem.2.2⟩
  · rw [h'.effectiveLines_eq, h.effectiveLines_eq, hsame.card_eq]

/-- A call over three lines, with other code in the first and the last of them. -/
def crowded : Text := "x; /* c */ f(\n\n y) + z // c".toList

def alone : Text := "/* x */ f(\n\n y)".toList

theorem effectiveLines_eq_card_crowded :
    CodeSpan .rust crowded ⟨11, 7⟩ ⟨0, 2, by decide⟩ ∧ CodeSpan .rust alone ⟨8, 7⟩ ⟨0, 2, by decide⟩ ∧
    SameInside .rust crowded ⟨11, 7⟩ alone ⟨8, 7⟩ ∧
    (SourceText.ofText crowded .rust).effectiveLines ⟨0, 2, by decide⟩ =
      (codeLinesIn .rust crowded ⟨11, 7⟩).card ∧
    (SourceText.ofText crowded .rust).codeLines[1]? ≠ some true ∧
    1 ∉ codeLinesIn .rust crowded ⟨11, 7⟩ ∧
    (SourceText.ofText alone .rust).effectiveLines ⟨0, 2, by decide⟩ =
      (SourceText.ofText crowded .rust).effectiveLines ⟨0, 2, by decide⟩ := by
  have hstyle : CommentStyle.rust.Lacks '\n' := ⟨by decide, by decide, by decide⟩
  have hcrowded : CodeSpan .rust crowded ⟨11, 7⟩ ⟨0, 2, by decide⟩ :=
    ⟨hstyle, by decide, by decide, by decide, by decide, by decide⟩
  have halone : CodeSpan .rust alone ⟨8, 7⟩ ⟨0, 2, by decide⟩ :=
    ⟨hstyle, by decide, by decide, by decide, by decide, by decide⟩
  have hsame : SameInside .rust crowded ⟨11, 7⟩ alone ⟨8, 7⟩ := ⟨rfl, by decide, by decide⟩
  obtain ⟨hcard, hflag, hmove⟩ := effectiveLines_eq_card .rust crowded ⟨11, 7⟩ ⟨0, 2, _⟩ hcrowded
  have hblank : (SourceText.ofText crowded .rust).codeLines[1]? ≠ some true := by decide
  exact ⟨hcrowded, halone, hsame, hcard, hblank, mt (hflag 1 (by decide) (by decide)).mpr hblank,
    hmove alone ⟨8, 7⟩ _ halone hsame⟩

end ClosureLint
