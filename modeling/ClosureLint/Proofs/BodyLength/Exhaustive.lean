import ClosureLint.Proofs.Source.Measure
import Mathlib

/-! What is reported about a body under any list of limits. Every limit that the body goes past
yields a finding, whatever the others do, in the order in which they are given. The guideline that
the findings quote is chosen apart from that: it is the limit of the first threshold of the lowest
severity, wherever that stands in the list and whether or not the body goes past it. -/

namespace ClosureLint.BodyLength

variable {thresholds thresholds' : List Threshold} {t : Threshold}

/-! ### The guideline -/

/-- The threshold is the first one of the lowest severity in the list. -/
def FirstLowest (thresholds : List Threshold) (t : Threshold) : Prop :=
  ∃ before after, thresholds = before ++ t :: after ∧
    (∀ u ∈ before, t.severity.rank < u.severity.rank) ∧
      ∀ u ∈ after, t.severity.rank ≤ u.severity.rank

/-- The threshold is of the lowest severity in the list. -/
def Lowest (thresholds : List Threshold) (t : Threshold) : Prop :=
  t ∈ thresholds ∧ ∀ u ∈ thresholds, t.severity.rank ≤ u.severity.rank

namespace FirstLowest

theorem lowest (h : FirstLowest thresholds t) : Lowest thresholds t := by
  obtain ⟨before, after, rfl, hbefore, hafter⟩ := h
  refine ⟨List.mem_append_right _ (List.mem_cons_self ..), List.forall_mem_append.mpr ⟨?_, ?_⟩⟩
  · exact fun u hu => Nat.le_of_lt (hbefore u hu)
  · exact List.forall_mem_cons.mpr ⟨Nat.le_refl _, hafter⟩

theorem cons {u : Threshold} (h : FirstLowest thresholds t)
    (hu : t.severity.rank < u.severity.rank) : FirstLowest (u :: thresholds) t := by
  obtain ⟨before, after, rfl, hbefore, hafter⟩ := h
  exact ⟨u :: before, after, rfl, List.forall_mem_cons.mpr ⟨hu, hbefore⟩, hafter⟩

end FirstLowest

theorem firstLowest_of_guideline? (h : guideline? thresholds = some t) :
    FirstLowest thresholds t := by
  induction thresholds generalizing t with
  | nil => cases h
  | cons u rest ih =>
    rw [guideline?] at h
    split at h
    next v hv =>
      have hlowest := ih hv
      split at h
      next hlt =>
        cases h
        exact hlowest.cons hlt
      next hle =>
        cases h
        exact ⟨[], rest, rfl, List.forall_mem_nil _, fun w hw =>
          Nat.le_trans (Nat.le_of_not_lt hle) (hlowest.lowest.2 w hw)⟩
    next hnone =>
      cases h
      cases rest with
      | nil => exact ⟨[], [], rfl, List.forall_mem_nil _, List.forall_mem_nil _⟩
      | cons w rest =>
        have := guideline?_isSome (List.cons_ne_nil w rest)
        rw [hnone] at this
        cases this

instance (thresholds : List Threshold) (t : Threshold) : Decidable (Lowest thresholds t) :=
  inferInstanceAs (Decidable (_ ∧ _))

/-- All thresholds of the lowest severity have the same limit. -/
def SharesLowest (thresholds : List Threshold) : Prop :=
  ∀ t ∈ thresholds, ∀ u ∈ thresholds, Lowest thresholds t → Lowest thresholds u →
    t.maxLines = u.maxLines

instance (thresholds : List Threshold) : Decidable (SharesLowest thresholds) :=
  inferInstanceAs (Decidable (∀ t ∈ thresholds, _))

/-- Where the lowest severity has one limit, that is the guideline in any order. -/
theorem guideline?_perm (hshares : SharesLowest thresholds) (h : thresholds.Perm thresholds') :
    (guideline? thresholds).map Threshold.maxLines =
      (guideline? thresholds').map Threshold.maxLines := by
  cases thresholds with
  | nil => rw [List.nil_perm.mp h]
  | cons s rest =>
    have hne : thresholds' ≠ [] := fun hnil => by simp [hnil] at h
    obtain ⟨t, ht⟩ := Option.isSome_iff_exists.mp (guideline?_isSome (List.cons_ne_nil s rest))
    obtain ⟨u, hu⟩ := Option.isSome_iff_exists.mp (guideline?_isSome hne)
    have htlow := (firstLowest_of_guideline? ht).lowest
    have hulow := (firstLowest_of_guideline? hu).lowest
    have hulow : Lowest (s :: rest) u :=
      ⟨h.mem_iff.mpr hulow.1, fun v hv => hulow.2 v (h.mem_iff.mp hv)⟩
    rw [ht, hu, Option.map_some, Option.map_some, hshares t htlow.1 u hulow.1 htlow hulow]

/-- What is reported depends on the guideline through its limit alone. -/
theorem findingsAt_eq (thresholds : List Threshold) (offset count : Nat) :
    findingsAt thresholds offset count =
      ((guideline? thresholds).map Threshold.maxLines).elim [] fun guideline =>
        (thresholds.filter fun threshold => threshold.maxLines < count).map fun threshold =>
          ⟨identifier, threshold.severity, offset, reason guideline count⟩ := by
  rw [findingsAt]
  cases guideline? thresholds <;> rfl

theorem evaluate_perm (hshares : SharesLowest thresholds) (h : thresholds.Perm thresholds')
    (file : SourceText) (closure : Closure) :
    (evaluate file closure thresholds).Perm (evaluate file closure thresholds') := by
  cases hrange : file.lineRange? closure.body with
  | none => rw [evaluate_eq_nil _ hrange, evaluate_eq_nil _ hrange]
  | some range =>
    rw [evaluate_eq _ hrange, evaluate_eq _ hrange, findingsAt_eq, findingsAt_eq,
      guideline?_perm hshares h]
    cases (guideline? thresholds').map Threshold.maxLines with
    | none => exact .nil
    | some guideline => exact (h.filter _).map _

/-! ### The wording -/

theorem guideline_eq_of_reason_eq {guideline guideline' count : Nat}
    (h : reason guideline count = reason guideline' count) : guideline = guideline' := by
  unfold reason at h
  rw [String.append_left_inj, String.append_left_inj, String.append_right_inj] at h
  exact Nat.repr_inj.mp h

section Levels

variable {levels : Levels} {offset count : Nat}

/-- The limits are in the wrong order, and so many code lines go past the one for errors, but not
past the one for warnings. -/
def SkipsWarning (levels : Levels) (count : Nat) : Prop :=
  ∃ limit ∈ levels.error, limit < count ∧ count ≤ levels.warning

theorem severities_findingsAt : (findingsAt levels.thresholds offset count).map Violation.severity =
    (if levels.warning < count then [.warning] else []) ++
      if ∃ limit ∈ levels.error, limit < count then [.error] else [] := by
  rw [findingsAt_levels, List.map_map]
  exact List.map_id _

theorem exists_error_iff : (∃ v ∈ findingsAt levels.thresholds offset count, v.severity = .error) ↔
    ∃ limit ∈ levels.error, limit < count := by
  rw [← List.mem_map, severities_findingsAt]
  split <;> split <;> simp_all

theorem exists_warning_iff :
    (∃ v ∈ findingsAt levels.thresholds offset count, v.severity = .warning) ↔
      levels.warning < count := by
  rw [← List.mem_map, severities_findingsAt]
  split <;> split <;> simp_all

/-- An error alone is reported where the limits are in the wrong order around the number. -/
theorem error_alone_iff :
    ((∃ v ∈ findingsAt levels.thresholds offset count, v.severity = .error) ∧
      ¬ ∃ v ∈ findingsAt levels.thresholds offset count, v.severity = .warning) ↔
        SkipsWarning levels count := by
  rw [exists_error_iff, exists_warning_iff, Nat.not_lt]
  constructor
  · rintro ⟨⟨limit, hlimit, hlt⟩, hle⟩
    exact ⟨limit, hlimit, hlt, hle⟩
  · rintro ⟨limit, hlimit, hlt, hle⟩
    exact ⟨⟨limit, hlimit, hlt⟩, hle⟩

/-- A guideline that is not passed is quoted in the same case. -/
theorem quotes_unpassed_iff :
    (∃ v ∈ findingsAt levels.thresholds offset count,
      ∃ limit, v.reason = reason limit count ∧ count ≤ limit) ↔ SkipsWarning levels count := by
  rw [← @error_alone_iff levels offset count]
  constructor
  · rintro ⟨v, hv, limit, hlimit, hle⟩
    rw [reason_of_mem_findingsAt hv] at hlimit
    rw [← guideline_eq_of_reason_eq hlimit] at hle
    have hnone : ¬ ∃ v ∈ findingsAt levels.thresholds offset count, v.severity = .warning := by
      rw [exists_warning_iff]
      omega
    cases hseverity : v.severity with
    | warning => exact absurd ⟨v, hv, hseverity⟩ hnone
    | error => exact ⟨⟨v, hv, hseverity⟩, hnone⟩
  · rintro ⟨⟨v, hv, -⟩, hnone⟩
    rw [exists_warning_iff, Nat.not_lt] at hnone
    exact ⟨v, hv, _, reason_of_mem_findingsAt hv, hnone⟩

end Levels

/-- Every limit that a closure's body goes past is reported. A body without lines and an empty list
of thresholds yield nothing. Otherwise the severities are those of the thresholds below the number
of code lines, in the order given; all findings are at the closure and quote that number and the
limit of the first threshold of the lowest severity. So the order of the thresholds is that of the
findings and nothing more, if the lowest severity has one limit. Under a pair of limits an error is
reported without a warning just where the limits are in the wrong order and the number of code lines
is between them, and nowhere else do findings quote a limit that the body does not go past. -/
theorem evaluate_exhaustive (text : Text) (style : CommentStyle) (closure : Closure)
    (thresholds : List Threshold) :
    let file := SourceText.ofText text style
    (file.lineRange? closure.body = none ∨ thresholds = [] →
      evaluate file closure thresholds = []) ∧
    (∀ range, file.lineRange? closure.body = some range → thresholds ≠ [] →
      let count := file.effectiveLines range
      (evaluate file closure thresholds).map Violation.severity =
        (thresholds.filter fun t => t.maxLines < count).map Threshold.severity ∧
      ∃ guideline, FirstLowest thresholds guideline ∧
        ∀ v ∈ evaluate file closure thresholds, v.rule = identifier ∧ v.offset = closure.offset ∧
          v.reason = reason guideline.maxLines count) ∧
    (SharesLowest thresholds → ∀ thresholds', thresholds.Perm thresholds' →
      (evaluate file closure thresholds).Perm (evaluate file closure thresholds')) ∧
    ∀ levels range, file.lineRange? closure.body = some range →
      let count := file.effectiveLines range
      let found := evaluate file closure levels.thresholds
      (((∃ v ∈ found, v.severity = .error) ∧ ¬ ∃ v ∈ found, v.severity = .warning) ↔
        SkipsWarning levels count) ∧
      ((∃ v ∈ found, ∃ limit, v.reason = reason limit count ∧ count ≤ limit) ↔
        SkipsWarning levels count) := by
  intro file
  refine ⟨?_, fun range hrange hne => ?_, fun hshares thresholds' hperm =>
    evaluate_perm hshares hperm file closure, fun levels range hrange => ?_⟩
  · rintro (hrange | rfl)
    · exact evaluate_eq_nil thresholds hrange
    · rfl
  · obtain ⟨guideline, hguideline⟩ := Option.isSome_iff_exists.mp (guideline?_isSome hne)
    rw [evaluate_eq thresholds hrange, findingsAt, hguideline]
    refine ⟨by rw [List.map_map]; rfl, guideline, firstLowest_of_guideline? hguideline, ?_⟩
    intro v hv
    obtain ⟨threshold, -, rfl⟩ := List.mem_map.mp hv
    exact ⟨rfl, rfl, rfl⟩
  · rw [evaluate_eq levels.thresholds hrange]
    exact ⟨error_alone_iff, quotes_unpassed_iff⟩

def threeLineCall : Text := "f(|| \x7b\n1;\n\x7d)".toList

/-- Errors from two lines and from one line on, and warnings from ten lines on. -/
def errorsFirst : List Threshold := [⟨.error, 1⟩, ⟨.warning, 9⟩, ⟨.error, 0⟩]

/-- Both errors are reported, and quote the limit for warnings. -/
theorem evaluate_exhaustive_errorsFirst :
    let file := SourceText.ofText threeLineCall .rust
    let found := evaluate file ⟨2, ⟨5, 6⟩⟩ errorsFirst
    file.lineRange? ⟨5, 6⟩ = some ⟨0, 2, by decide⟩ ∧
      file.effectiveLines ⟨0, 2, by decide⟩ = 3 ∧ errorsFirst ≠ [] ∧ SharesLowest errorsFirst ∧
      found.map Violation.severity = [.error, .error] ∧
      (∃ guideline, FirstLowest errorsFirst guideline ∧ guideline.maxLines = 9 ∧
        ∀ v ∈ found, v.offset = 2 ∧ v.reason = reason guideline.maxLines 3) ∧
      found.Perm (evaluate file ⟨2, ⟨5, 6⟩⟩ [⟨.error, 0⟩, ⟨.warning, 9⟩, ⟨.error, 1⟩]) ∧
      SkipsWarning ⟨9, some 1⟩ 3 ∧
      ¬ ∃ v ∈ evaluate file ⟨2, ⟨5, 6⟩⟩ (Levels.thresholds ⟨9, some 1⟩), v.severity = .warning := by
  intro file found
  have hrange : file.lineRange? ⟨5, 6⟩ = some ⟨0, 2, by decide⟩ := by decide
  have hcount : file.effectiveLines ⟨0, 2, by decide⟩ = 3 := by decide
  have hne : errorsFirst ≠ [] := nofun
  have hshares : SharesLowest errorsFirst := by decide
  have hskips : SkipsWarning ⟨9, some 1⟩ 3 := ⟨1, rfl, by decide, by decide⟩
  obtain ⟨-, hfound, hperm, hlevels⟩ := evaluate_exhaustive threeLineCall .rust ⟨2, ⟨5, 6⟩⟩ errorsFirst
  obtain ⟨hseverities, guideline, hfirst, hall⟩ := hfound _ hrange hne
  have hlimit : guideline.maxLines = 9 :=
    hshares guideline hfirst.lowest.1 ⟨.warning, 9⟩ (by decide) hfirst.lowest (by decide)
  rw [hcount] at hall hseverities
  refine ⟨hrange, hcount, hne, hshares, hseverities, ⟨guideline, hfirst, hlimit, fun v hv =>
    (hall v hv).2⟩, hperm hshares _ (by decide), hskips, ?_⟩
  have halone := (hlevels ⟨9, some 1⟩ _ hrange).1
  rw [hcount] at halone
  exact (halone.mpr hskips).2

end ClosureLint.BodyLength
