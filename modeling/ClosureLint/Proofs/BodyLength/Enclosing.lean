import ClosureLint.Proofs.Source.Span

/-! What is measured grows with the lines it is measured in. The number of code lines in a range is
the sum over its parts, so a range has at least as many as any range in it, wherever the text ends.
Offsets and their lines are in the same order, so the lines of a span cover those of the spans in
it. What is reported about a closure is therefore reported about each closure around it as well. -/

namespace ClosureLint

/-- All lines of the inner range are lines of the outer one. -/
def LineRange.Covers (outer inner : LineRange) : Prop :=
  outer.start ≤ inner.start ∧ inner.stop ≤ outer.stop

instance (outer inner : LineRange) : Decidable (outer.Covers inner) :=
  inferInstanceAs (Decidable (_ ∧ _))

/-- A range is cut in two between two lines. -/
structure LineRange.Splits (whole first second : LineRange) : Prop where
  start_eq : first.start = whole.start
  succ_stop : second.start = first.stop + 1
  stop_eq : second.stop = whole.stop

def ByteSpan.Covers (outer inner : ByteSpan) : Prop :=
  outer.offset ≤ inner.offset ∧ inner.offset + inner.length ≤ outer.offset + outer.length

instance (outer inner : ByteSpan) : Decidable (outer.Covers inner) :=
  inferInstanceAs (Decidable (_ ∧ _))

namespace SourceText

theorem effectiveLines_le (file : SourceText) (range : LineRange) :
    file.effectiveLines range ≤ range.stop - range.start + 1 := by
  rw [effectiveLines_eq_card_flagged]
  refine (Finset.card_filter_le _ _).trans ?_
  rw [Nat.card_Icc]
  have := range.start_le_stop
  omega

theorem effectiveLines_split (file : SourceText) {whole first second : LineRange}
    (h : whole.Splits first second) :
    file.effectiveLines whole = file.effectiveLines first + file.effectiveLines second := by
  have hfirst := first.start_le_stop
  have hsecond := second.start_le_stop
  obtain ⟨hstart, hmeet, hstop⟩ := h
  have hunion : Finset.Icc whole.start whole.stop =
      Finset.Icc first.start first.stop ∪ Finset.Icc second.start second.stop := by
    ext k
    rw [Finset.mem_union, Finset.mem_Icc, Finset.mem_Icc, Finset.mem_Icc]
    omega
  have hdisjoint : Disjoint (Finset.Icc first.start first.stop)
      (Finset.Icc second.start second.stop) := by
    rw [Finset.disjoint_left]
    intro k hk hk'
    rw [Finset.mem_Icc] at hk hk'
    omega
  rw [effectiveLines_eq_card_flagged, effectiveLines_eq_card_flagged,
    effectiveLines_eq_card_flagged, hunion, Finset.filter_union,
    Finset.card_union_of_disjoint (Finset.disjoint_filter_filter hdisjoint)]

theorem effectiveLines_mono (file : SourceText) {outer inner : LineRange}
    (h : outer.Covers inner) : file.effectiveLines inner ≤ file.effectiveLines outer := by
  rw [effectiveLines_eq_card_flagged, effectiveLines_eq_card_flagged]
  exact Finset.card_le_card (Finset.filter_subset_filter _ (Finset.Icc_subset_Icc h.1 h.2))

theorem lineRange?_covers {text : Text} {style : CommentStyle} {outer inner : ByteSpan}
    {o i : LineRange} (houter : (ofText text style).lineRange? outer = some o)
    (hinner : (ofText text style).lineRange? inner = some i) (h : outer.Covers inner) :
    o.Covers i := by
  obtain ⟨-, hostart, hostop⟩ := lineRange?_eq_some_iff_lineOf?.mp houter
  obtain ⟨-, histart, histop⟩ := lineRange?_eq_some_iff_lineOf?.mp hinner
  exact ⟨lineOf?_mono h.1 hostart histart, lineOf?_mono h.2 histop hostop⟩

end SourceText

namespace BodyLength

variable {file : SourceText} {closure : Closure} {range : LineRange} {t : Threshold}

/-- A threshold is reported about a closure: it yields a finding, also on its own. -/
def reports (file : SourceText) (closure : Closure) (t : Threshold) : Bool :=
  !(evaluate file closure [t]).isEmpty

/-- The finding about a closure for a threshold. -/
def findingFor (closure : Closure) (limit count : Nat) (t : Threshold) : Violation :=
  ⟨identifier, t.severity, closure.offset, reason limit count⟩

theorem reports_eq (h : file.lineRange? closure.body = some range) (t : Threshold) :
    reports file closure t = decide (t.maxLines < file.effectiveLines range) := by
  rw [reports, evaluate_eq [t] h, findingsAt]
  by_cases hlt : t.maxLines < file.effectiveLines range <;> simp [guideline?, hlt]

/-- Under any thresholds there is one finding for each threshold that is reported, in order. -/
theorem evaluate_eq_filter (h : file.lineRange? closure.body = some range)
    (thresholds : List Threshold) : ∃ limit, evaluate file closure thresholds =
      (thresholds.filter (reports file closure)).map
        (findingFor closure limit (file.effectiveLines range)) := by
  rw [evaluate_eq thresholds h, findingsAt, funext (reports_eq h)]
  cases hguideline : guideline? thresholds with
  | some guideline => exact ⟨guideline.maxLines, rfl⟩
  | none =>
    obtain rfl : thresholds = [] := by
      by_contra hne
      have := guideline?_isSome hne
      rw [hguideline] at this
      cases this
    exact ⟨0, rfl⟩

theorem reports_of_covers {text : Text} {style : CommentStyle} {outer inner : Closure}
    {o i : LineRange} (houter : (SourceText.ofText text style).lineRange? outer.body = some o)
    (hinner : (SourceText.ofText text style).lineRange? inner.body = some i)
    (h : outer.body.Covers inner.body) (ht : reports (.ofText text style) inner t = true) :
    reports (.ofText text style) outer t = true := by
  have hle := SourceText.effectiveLines_mono (.ofText text style)
    (SourceText.lineRange?_covers houter hinner h)
  rw [reports_eq hinner, decide_eq_true_eq] at ht
  rw [reports_eq houter, decide_eq_true_eq]
  exact Nat.lt_of_lt_of_le ht hle

/-- Measuring is additive and monotone. The number of code lines in a range is that of the flagged
lines in it, also where the range goes beyond the last line; it is at most the number of lines, it
is the sum over two parts between which the range is cut, and no range in it has more. So where the
body of a closure lies in the body of another one, each threshold that is reported about the inner
closure is reported about the outer one: under any thresholds both have one finding for each
threshold that is reported, and those of the inner closure are among those of the outer one. -/
theorem evaluate_enclosing (text : Text) (style : CommentStyle) :
    let file := SourceText.ofText text style
    (∀ range : LineRange,
      file.effectiveLines range =
        {k ∈ Finset.Icc range.start range.stop | file.codeLines[k]? = some true}.card ∧
      file.effectiveLines range ≤ range.stop - range.start + 1) ∧
    (∀ whole first second : LineRange, whole.Splits first second →
      file.effectiveLines whole = file.effectiveLines first + file.effectiveLines second) ∧
    (∀ outer inner : LineRange, outer.Covers inner →
      file.effectiveLines inner ≤ file.effectiveLines outer) ∧
    ∀ (outer inner : Closure) (o i : LineRange), file.lineRange? outer.body = some o →
      file.lineRange? inner.body = some i → outer.body.Covers inner.body →
      (∀ t, reports file inner t = true → reports file outer t = true) ∧
      ∀ thresholds,
        (thresholds.filter (reports file inner)).Sublist (thresholds.filter (reports file outer)) ∧
        (∃ limit, evaluate file inner thresholds = (thresholds.filter (reports file inner)).map
          (findingFor inner limit (file.effectiveLines i))) ∧
        ∃ limit, evaluate file outer thresholds = (thresholds.filter (reports file outer)).map
          (findingFor outer limit (file.effectiveLines o)) := by
  intro file
  refine ⟨fun range => ⟨file.effectiveLines_eq_card_flagged range, file.effectiveLines_le range⟩,
    fun _ _ _ => file.effectiveLines_split, fun _ _ => file.effectiveLines_mono, ?_⟩
  intro outer inner o i houter hinner hcovers
  have hreports : ∀ t, reports file inner t = true → reports file outer t = true :=
    fun _ => reports_of_covers houter hinner hcovers
  refine ⟨hreports, fun thresholds => ⟨?_, evaluate_eq_filter hinner thresholds,
    evaluate_eq_filter houter thresholds⟩⟩
  exact List.monotone_filter_right thresholds hreports

/-- A call in the body of another one. -/
def callInCall : Text := "f(|| \x7b\n1;\n\ng(|| \x7b\n2\n\x7d)\n\x7d)".toList

/-- The inner body has three code lines, so it is past a limit of two, and so is the outer one. -/
theorem evaluate_enclosing_callInCall :
    let file := SourceText.ofText callInCall .rust
    let outer : Closure := ⟨2, ⟨5, 19⟩⟩
    let inner : Closure := ⟨13, ⟨16, 5⟩⟩
    LineRange.Splits ⟨0, 40, by decide⟩ ⟨0, 3, by decide⟩ ⟨4, 40, by decide⟩ ∧
    file.effectiveLines ⟨0, 40, by decide⟩ =
      file.effectiveLines ⟨0, 3, by decide⟩ + file.effectiveLines ⟨4, 40, by decide⟩ ∧
    file.lineRange? outer.body = some ⟨0, 6, by decide⟩ ∧
    file.lineRange? inner.body = some ⟨3, 5, by decide⟩ ∧
    LineRange.Covers ⟨0, 6, by decide⟩ ⟨3, 5, by decide⟩ ∧
    file.effectiveLines ⟨3, 5, by decide⟩ ≤ file.effectiveLines ⟨0, 6, by decide⟩ ∧
    outer.body.Covers inner.body ∧ reports file inner ⟨.error, 2⟩ = true ∧
      reports file outer ⟨.error, 2⟩ = true := by
  intro file outer inner
  have hsplits : LineRange.Splits ⟨0, 40, by decide⟩ ⟨0, 3, by decide⟩ ⟨4, 40, by decide⟩ :=
    ⟨rfl, rfl, rfl⟩
  have houter : file.lineRange? outer.body = some ⟨0, 6, by decide⟩ := by decide
  have hinner : file.lineRange? inner.body = some ⟨3, 5, by decide⟩ := by decide
  have hlines : LineRange.Covers ⟨0, 6, by decide⟩ ⟨3, 5, by decide⟩ := by decide
  have hbodies : outer.body.Covers inner.body := by decide
  have hreports : reports file inner ⟨.error, 2⟩ = true := by
    rw [reports_eq hinner]
    decide
  obtain ⟨-, hsum, hmono, hclosures⟩ := evaluate_enclosing callInCall .rust
  exact ⟨hsplits, hsum _ _ _ hsplits, houter, hinner, hlines, hmono _ _ hlines, hbodies, hreports,
    (hclosures outer inner _ _ houter hinner hbodies).1 _ hreports⟩

end BodyLength

end ClosureLint
