import ClosureLint.Proofs.Report.Highest
import ClosureLint.Proofs.Rust.Places
import ClosureLint.Proofs.Selection
import ClosureLint.Proofs.Source.Measure
import Mathlib

/-! The order of the findings at an offset. Both findings of the body length rule about a closure
are at its offset, the warning before the error; and a front end that tells closures apart by their
offsets has no others there. -/

namespace ClosureLint

/-- Findings at one offset become graver. -/
def Ascending (violations : List Violation) : Prop :=
  violations.Pairwise fun v w => v.offset = w.offset → v.severity.rank < w.severity.rank

/-- A front end whose closures begin at different offsets. -/
def FrontEnd.Distinct (frontEnd : FrontEnd) : Prop :=
  ∀ text closures, frontEnd.closures? text = some closures → (closures.map Closure.offset).Nodup

theorem Rust.distinct_frontEnd : Rust.frontEnd.Distinct := by
  intro text closures h
  have hclosures : Rust.closures text = .ok closures := by
    rw [show Rust.frontEnd.closures? text = (Rust.closures text).toOption from rfl] at h
    cases hread : Rust.closures text with
    | error fault => rw [hread] at h; cases h
    | ok closures' => rw [hread] at h; exact congrArg Except.ok (Option.some.inj h)
  obtain ⟨tokens, ranges, htokens, hranges, rfl⟩ := closures_eq_ok_iff.mp hclosures
  rw [List.map_map]
  refine List.Nodup.map_on (fun a ha b hb => eq_of_offset_eq htokens hranges ha hb) ?_
  exact (closureRanges_ordered hranges).pairwise.imp fun hab he =>
    hab.start_ne (congrArg ClosureRange.start he)

namespace BodyLength

theorem ascending_findingsAt (levels : Levels) (offset count : Nat) :
    Ascending (findingsAt levels.thresholds offset count) := by
  have hthresholds : levels.thresholds.Pairwise fun s t => s.severity.rank < t.severity.rank := by
    obtain ⟨warning, _ | error⟩ := levels <;> simp [Levels.thresholds, Severity.rank]
  rw [Ascending, findingsAt]
  split
  · rw [List.pairwise_map]
    refine (hthresholds.filter _).imp ?_
    intro s t hlt _
    exact hlt
  · exact .nil

theorem ascending_evaluate (levels : Levels) (file : SourceText) (closure : Closure) :
    Ascending (evaluate file closure levels.thresholds) := by
  cases hrange : file.lineRange? closure.body with
  | none =>
    rw [evaluate_eq_nil _ hrange]
    exact .nil
  | some range =>
    rw [evaluate_eq _ hrange]
    exact ascending_findingsAt levels _ _

end BodyLength

namespace Linter

variable {linter : Linter} {levels : Levels}

theorem ascending_lint (hrules : linter.rules = [BodyLength.rule levels])
    (hdistinct : ∀ frontEnd ∈ linter.frontEnds, frontEnd.Distinct) (path : Path) (text : Text) :
    Ascending (linter.lint path text) := by
  rw [lint]
  split
  · exact .nil
  next frontEnd hfrontEnd =>
    split
    · exact .nil
    next closures hclosures =>
      split
      · exact .nil
      · have hoffsets := hdistinct _ (mem_of_frontEndFor? hfrontEnd) text closures hclosures
        rw [hrules, applyRules, Ascending, List.pairwise_flatMap]
        refine ⟨fun closure _ => ?_, (List.pairwise_map.mp hoffsets).imp ?_⟩
        · rw [List.flatMap_singleton]
          exact BodyLength.ascending_evaluate levels _ closure
        · intro c d hne v hv w hw hoffset
          rw [List.flatMap_singleton] at hv hw
          exact absurd ((BodyLength.offset_of_mem_evaluate hv).symm.trans
            (hoffset.trans (BodyLength.offset_of_mem_evaluate hw))) hne

end Linter

/-- At each offset there is only one finding that is kept. -/
theorem ascending_keepHighest (violations : List Violation) :
    Ascending (keepHighest violations) :=
  (List.pairwise_map.mp (keptOf_keepHighest violations).nodup).imp fun hne hoffset =>
    absurd hoffset hne

end ClosureLint
