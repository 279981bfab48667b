import ClosureLint.BodyLength
import ClosureLint.Proofs.Comment.CodeLines
import ClosureLint.Proofs.Source.Lines

/-! How a body is measured: the code lines of a range are the marked ones in it, and what is
reported about a closure depends on nothing but their number. -/

namespace ClosureLint

namespace SourceText

variable {style : CommentStyle} {t : Text}

/-- The code lines of a range are the flagged ones, also where the range goes beyond the last
line. -/
theorem effectiveLines_eq_countP (file : SourceText) (range : LineRange) :
    file.effectiveLines range = (List.range' range.start (range.stop + 1 - range.start)).countP
      fun k => decide (file.codeLines[k]? = some true) := by
  rw [effectiveLines, Array.toList_extract, List.extract]
  generalize range.stop + 1 - range.start = n
  induction n with
  | zero => rfl
  | succ n ih =>
    rw [List.take_add_one, List.countP_append, ih, List.range'_1_concat, List.countP_append,
      List.getElem?_drop, Array.getElem?_toList, List.countP_singleton]
    rcases file.codeLines[range.start + n]? with _ | _ | _ <;> rfl

theorem getElem?_codeLines {k : Nat} (h : k ≤ t.count '\n') : (ofText t style).codeLines[k]? =
    some (decide (k ∈ Comment.markedLines (Comment.turns style t))) := by
  have hsize : k < (lineStarts t).size := by
    rw [size_lineStarts]
    exact Nat.lt_succ_of_le h
  exact Comment.getElem?_flags hsize _

theorem effectiveLines_eq {range : LineRange} (h : range.stop ≤ t.count '\n') :
    (ofText t style).effectiveLines range =
      (List.range' range.start (range.stop + 1 - range.start)).countP fun k =>
        decide (k ∈ Comment.markedLines (Comment.turns style t)) := by
  rw [effectiveLines_eq_countP]
  refine List.countP_congr fun k hk => ?_
  have hle : k ≤ t.count '\n' := by
    have := List.mem_range'_1.mp hk
    omega
  rw [decide_eq_true_eq, getElem?_codeLines hle, Option.some.injEq]

end SourceText

namespace BodyLength

theorem guideline?_isSome {thresholds : List Threshold} (h : thresholds ≠ []) :
    (guideline? thresholds).isSome = true := by
  cases thresholds with
  | nil => exact absurd rfl h
  | cons threshold thresholds =>
    rw [guideline?]
    split
    · split <;> rfl
    · rfl

@[simp] theorem guideline?_thresholds (levels : Levels) :
    guideline? levels.thresholds = some ⟨.warning, levels.warning⟩ := by
  obtain ⟨warning, _ | error⟩ := levels
  · rfl
  · rfl

/-- Which severities a number of code lines asks for. -/
theorem filter_thresholds (levels : Levels) (count : Nat) :
    (levels.thresholds.filter fun t => t.maxLines < count).map Threshold.severity =
      (if levels.warning < count then [.warning] else []) ++
        if ∃ limit ∈ levels.error, limit < count then [.error] else [] := by
  obtain ⟨warning, _ | error⟩ := levels
  · by_cases hwarning : warning < count <;> simp [Levels.thresholds, hwarning]
  · by_cases hwarning : warning < count <;> by_cases herror : error < count <;>
      simp [Levels.thresholds, hwarning, herror]

/-- What is reported about a closure at `offset` with so many code lines in its body. -/
def findingsAt (thresholds : List Threshold) (offset count : Nat) : List Violation :=
  match guideline? thresholds with
  | some guideline =>
    (thresholds.filter fun threshold => threshold.maxLines < count).map fun threshold =>
      ⟨identifier, threshold.severity, offset, reason guideline.maxLines count⟩
  | none => []

theorem findingsAt_levels (levels : Levels) (offset count : Nat) :
    findingsAt levels.thresholds offset count =
      ((if levels.warning < count then [Severity.warning] else []) ++
        if ∃ limit ∈ levels.error, limit < count then [Severity.error] else []).map fun severity =>
          ⟨identifier, severity, offset, reason levels.warning count⟩ := by
  rw [← filter_thresholds, findingsAt, guideline?_thresholds, List.map_map]
  rfl

theorem evaluate_eq_nil {file : SourceText} {closure : Closure} (thresholds : List Threshold)
    (h : file.lineRange? closure.body = none) : evaluate file closure thresholds = [] := by
  rw [evaluate, h]
  cases guideline? thresholds <;> rfl

theorem evaluate_eq {file : SourceText} {closure : Closure} {range : LineRange}
    (thresholds : List Threshold) (h : file.lineRange? closure.body = some range) :
    evaluate file closure thresholds =
      findingsAt thresholds closure.offset (file.effectiveLines range) := by
  rw [evaluate, h, findingsAt]
  cases guideline? thresholds with
  | none => rfl
  | some guideline =>
    simp only [SourceText.exceeds]
    induction thresholds with
    | nil => rfl
    | cons threshold thresholds ih =>
      rw [List.filterMap_cons, ih, List.filter_cons]
      by_cases hlt : threshold.maxLines < file.effectiveLines range
      · simp [hlt]
      · simp [hlt]

theorem findingsAt_move (move : Nat → Nat) (thresholds : List Threshold) (offset count : Nat) :
    findingsAt thresholds (move offset) count =
      (findingsAt thresholds offset count).map fun v => { v with offset := move v.offset } := by
  unfold findingsAt
  cases guideline? thresholds with
  | none => rfl
  | some guideline =>
    rw [List.map_map]
    rfl

theorem offset_of_mem_findingsAt {thresholds : List Threshold} {offset count : Nat} {v : Violation}
    (h : v ∈ findingsAt thresholds offset count) : v.offset = offset := by
  rw [findingsAt] at h
  split at h
  · obtain ⟨threshold, -, rfl⟩ := List.mem_map.mp h
    rfl
  · cases h

/-- A finding under a pair of limits quotes the one for warnings. -/
theorem reason_of_mem_findingsAt {levels : Levels} {offset count : Nat} {v : Violation}
    (h : v ∈ findingsAt levels.thresholds offset count) : v.reason = reason levels.warning count := by
  rw [findingsAt_levels] at h
  obtain ⟨severity, -, rfl⟩ := List.mem_map.mp h
  rfl

theorem exists_range_of_mem_evaluate {file : SourceText} {closure : Closure}
    {thresholds : List Threshold} {v : Violation} (h : v ∈ evaluate file closure thresholds) :
    ∃ range, file.lineRange? closure.body = some range ∧
      v ∈ findingsAt thresholds closure.offset (file.effectiveLines range) := by
  cases hrange : file.lineRange? closure.body with
  | none =>
    rw [evaluate_eq_nil thresholds hrange] at h
    cases h
  | some range => exact ⟨range, rfl, evaluate_eq thresholds hrange ▸ h⟩

theorem offset_of_mem_evaluate {file : SourceText} {closure : Closure} {thresholds : List Threshold}
    {v : Violation} (h : v ∈ evaluate file closure thresholds) : v.offset = closure.offset := by
  obtain ⟨_, -, h⟩ := exists_range_of_mem_evaluate h
  exact offset_of_mem_findingsAt h

end BodyLength

end ClosureLint
