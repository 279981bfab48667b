import ClosureLint.Report
import Mathlib.Data.List.Nodup

/-! The gravest violation at each offset. Of the violations that have been seen, the first one of the
greatest severity at each offset is kept, and the offsets are in the order in which they first occur.
-/

namespace ClosureLint

/-- The first violation of the greatest severity among those at its offset. -/
def FirstGravest (violations : List Violation) (v : Violation) : Prop :=
  ∃ before after, violations = before ++ v :: after ∧
    (∀ w ∈ before, w.offset = v.offset → w.severity.rank < v.severity.rank) ∧
      ∀ w ∈ after, w.offset = v.offset → w.severity.rank ≤ v.severity.rank

namespace FirstGravest

variable {violations : List Violation} {v w : Violation}

theorem mem (h : FirstGravest violations v) : v ∈ violations := by
  obtain ⟨before, after, rfl, -, -⟩ := h
  simp

theorem rank_le (h : FirstGravest violations v) (hw : w ∈ violations)
    (hoffset : w.offset = v.offset) : w.severity.rank ≤ v.severity.rank := by
  obtain ⟨before, after, rfl, hbefore, hafter⟩ := h
  rcases List.mem_append.mp hw with hw | hw
  · exact Nat.le_of_lt (hbefore w hw hoffset)
  · rcases List.mem_cons.mp hw with rfl | hw
    · exact Nat.le_refl _
    · exact hafter w hw hoffset

theorem concat (h : FirstGravest violations v)
    (hw : w.offset = v.offset → w.severity.rank ≤ v.severity.rank) :
    FirstGravest (violations ++ [w]) v := by
  obtain ⟨before, after, rfl, hbefore, hafter⟩ := h
  refine ⟨before, after ++ [w], by simp, hbefore, fun u hu => ?_⟩
  rcases List.mem_append.mp hu with hu | hu
  · exact hafter u hu
  · rw [List.mem_singleton.mp hu]
    exact hw

theorem last (h : ∀ w ∈ violations, w.offset = v.offset → w.severity.rank < v.severity.rank) :
    FirstGravest (violations ++ [v]) v :=
  ⟨violations, [], rfl, h, by simp⟩

end FirstGravest

/-- The list `kept` holds the first of the gravest violations at each offset, and goes by the places
at which the offsets first occur. -/
structure Collapses (violations kept : List Violation) : Prop where
  ordered : (kept.map Violation.offset).Pairwise fun o p =>
    (violations.map Violation.offset).idxOf o < (violations.map Violation.offset).idxOf p
  covers : ∀ v ∈ violations, v.offset ∈ kept.map Violation.offset
  first : ∀ v ∈ kept, FirstGravest violations v

theorem offsets_keepGraver (v : Violation) (kept : List Violation) :
    (keepGraver v kept).map Violation.offset =
      if v.offset ∈ kept.map Violation.offset then kept.map Violation.offset
      else kept.map Violation.offset ++ [v.offset] := by
  induction kept with
  | nil => rfl
  | cons k rest ih =>
    rw [keepGraver]
    by_cases hk : k.offset = v.offset
    · rw [if_pos hk]
      split <;> simp [hk]
    · have hne : v.offset ≠ k.offset := Ne.symm hk
      rw [if_neg hk, List.map_cons, ih]
      simp only [List.map_cons, List.mem_cons, hne, false_or]
      split <;> rfl

/-- What is kept when one more violation comes. -/
theorem mem_keepGraver_cases {v w : Violation} {kept : List Violation}
    (hnodup : (kept.map Violation.offset).Nodup) (h : w ∈ keepGraver v kept) :
    (w ∈ kept ∧ (v.offset = w.offset → v.severity.rank ≤ w.severity.rank)) ∨
      w = v ∧ ∀ k ∈ kept, k.offset = v.offset → k.severity.rank < v.severity.rank := by
  induction kept with
  | nil => exact .inr ⟨List.mem_singleton.mp h, by simp⟩
  | cons k rest ih =>
    obtain ⟨hk, hrest⟩ := List.nodup_cons.mp hnodup
    rw [keepGraver] at h
    by_cases hoffset : k.offset = v.offset
    · -- Behind `k` there is nothing else at its offset.
      have hother : ∀ u ∈ rest, u.offset ≠ v.offset := fun u hu he =>
        hk (hoffset.trans he.symm ▸ List.mem_map_of_mem hu)
      rw [if_pos hoffset] at h
      rcases List.mem_cons.mp h with rfl | h
      · split
        next hlt =>
          refine .inr ⟨rfl, List.forall_mem_cons.mpr ⟨fun _ => hlt, fun u hu he => ?_⟩⟩
          exact absurd he (hother u hu)
        next hle => exact .inl ⟨List.mem_cons_self .., fun _ => Nat.le_of_not_lt hle⟩
      · exact .inl ⟨List.mem_cons_of_mem _ h, fun he => absurd he.symm (hother w h)⟩
    · rw [if_neg hoffset] at h
      rcases List.mem_cons.mp h with rfl | h
      · exact .inl ⟨List.mem_cons_self .., fun he => absurd he.symm hoffset⟩
      · rcases ih hrest h with ⟨hw, hle⟩ | ⟨rfl, hlt⟩
        · exact .inl ⟨List.mem_cons_of_mem _ hw, hle⟩
        · exact .inr ⟨rfl, List.forall_mem_cons.mpr ⟨fun he => absurd he hoffset, hlt⟩⟩

namespace Collapses

variable {violations kept kept' : List Violation}

theorem nil : Collapses [] [] := ⟨.nil, by simp, by simp⟩

theorem nodup (h : Collapses violations kept) : (kept.map Violation.offset).Nodup :=
  h.ordered.imp fun hlt he => by simp [he] at hlt

theorem mem_offsets_iff (h : Collapses violations kept) {offset : Nat} :
    offset ∈ kept.map Violation.offset ↔ offset ∈ violations.map Violation.offset := by
  constructor
  · intro hoffset
    obtain ⟨v, hv, rfl⟩ := List.mem_map.mp hoffset
    exact List.mem_map_of_mem (h.first v hv).mem
  · intro hoffset
    obtain ⟨v, hv, rfl⟩ := List.mem_map.mp hoffset
    exact h.covers v hv

theorem step (h : Collapses violations kept) (v : Violation) :
    Collapses (violations ++ [v]) (keepGraver v kept) where
  ordered := by
    have hold : (kept.map Violation.offset).Pairwise fun o p =>
        ((violations ++ [v]).map Violation.offset).idxOf o <
          ((violations ++ [v]).map Violation.offset).idxOf p := by
      refine h.ordered.imp_of_mem fun {o p} ho hp hlt => ?_
      rwa [List.map_append, List.idxOf_append_of_mem (h.mem_offsets_iff.mp ho),
        List.idxOf_append_of_mem (h.mem_offsets_iff.mp hp)]
    rw [offsets_keepGraver]
    split
    next => exact hold
    next hnew =>
      refine List.pairwise_append.mpr ⟨hold, List.pairwise_singleton .., fun o ho p hp => ?_⟩
      have ho := h.mem_offsets_iff.mp ho
      rw [h.mem_offsets_iff] at hnew
      rw [List.mem_singleton.mp hp, List.map_append, List.idxOf_append_of_mem ho,
        List.idxOf_append_of_notMem hnew]
      exact Nat.lt_of_lt_of_le (List.idxOf_lt_length_of_mem ho) (Nat.le_add_right _ _)
  covers u hu := by
    rw [offsets_keepGraver]
    rcases List.mem_append.mp hu with hu | hu
    · split
      · exact h.covers u hu
      · exact List.mem_append_left _ (h.covers u hu)
    · rw [List.mem_singleton.mp hu]
      split
      · assumption
      · simp
  first w hw := by
    rcases mem_keepGraver_cases h.nodup hw with ⟨hw, hle⟩ | ⟨rfl, hlt⟩
    · exact (h.first w hw).concat hle
    · refine FirstGravest.last fun u hu he => ?_
      -- Something as grave as `u` has been kept, and is less grave than `w`.
      obtain ⟨k, hk, hoffset⟩ := List.mem_map.mp (h.covers u hu)
      exact Nat.lt_of_le_of_lt ((h.first k hk).rank_le hu hoffset.symm)
        (hlt k hk (hoffset.trans he))

theorem run (h : Collapses violations kept) (more : List Violation) :
    Collapses (violations ++ more)
      (more.foldl (fun kept violation => keepGraver violation kept) kept) := by
  induction more generalizing violations kept with
  | nil => simpa using h
  | cons v more ih =>
    rw [List.append_cons]
    exact ih (h.step v)

end Collapses

theorem collapses_keepHighest (violations : List Violation) :
    Collapses violations (keepHighest violations) := Collapses.nil.run violations

/-- Of the violations that have been seen, one of the gravest at each offset is kept. -/
structure KeptOf (seen kept : List Violation) : Prop where
  nodup : (kept.map Violation.offset).Nodup
  subset : kept ⊆ seen
  covers : ∀ v ∈ seen, ∃ w ∈ kept, w.offset = v.offset ∧ v.severity.rank ≤ w.severity.rank

theorem Collapses.keptOf {violations kept : List Violation} (h : Collapses violations kept) :
    KeptOf violations kept where
  nodup := h.nodup
  subset v hv := (h.first v hv).mem
  covers v hv := by
    obtain ⟨w, hw, hoffset⟩ := List.mem_map.mp (h.covers v hv)
    exact ⟨w, hw, hoffset, (h.first w hw).rank_le hv hoffset.symm⟩

theorem keptOf_keepHighest (violations : List Violation) :
    KeptOf violations (keepHighest violations) := (collapses_keepHighest violations).keptOf

theorem KeptOf.rank_le {seen kept : List Violation} (h : KeptOf seen kept) {v w : Violation}
    (hw : w ∈ kept) (hv : v ∈ seen) (hoffset : v.offset = w.offset) :
    v.severity.rank ≤ w.severity.rank := by
  obtain ⟨x, hx, hoffset', hrank⟩ := h.covers v hv
  obtain rfl := List.inj_on_of_nodup_map h.nodup hx hw (hoffset'.trans hoffset)
  exact hrank

end ClosureLint
