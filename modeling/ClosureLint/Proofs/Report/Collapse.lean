import ClosureLint.Proofs.Report.Highest
import Mathlib

/-! The gravest violations, exactly: no list but the one that is kept holds the first of the gravest
violations at each offset in the order of the offsets, and from this the laws of collapsing follow.
The same list comes out of a pass that changes it in place and keeps an index of the offsets beside
it. -/

namespace ClosureLint

theorem FirstGravest.eq {violations : List Violation} {v w : Violation}
    (hv : FirstGravest violations v) (hw : FirstGravest violations w)
    (hoffset : v.offset = w.offset) : v = w := by
  obtain ⟨before, after, hsplit, hbefore, hafter⟩ := id hv
  obtain ⟨before', after', hsplit', hbefore', -⟩ := id hw
  have hrank : v.severity.rank = w.severity.rank :=
    Nat.le_antisymm (hw.rank_le hv.mem hoffset) (hv.rank_le hw.mem hoffset.symm)
  -- Neither of the two can stand in front of the other, since that one would be less grave.
  rcases List.append_eq_append_iff.mp (hsplit.symm.trans hsplit') with ⟨u, hu, hu'⟩ | ⟨u, hu, hu'⟩
  · cases u with
    | nil => exact (List.cons.inj hu').1
    | cons x u =>
      obtain ⟨rfl, -⟩ := List.cons.inj hu'
      have := hbefore' v (by simp [hu]) hoffset
      omega
  · cases u with
    | nil => exact (List.cons.inj hu').1.symm
    | cons x u =>
      obtain ⟨rfl, -⟩ := List.cons.inj hu'
      have := hbefore w (by simp [hu]) hoffset.symm
      omega

/-- There is one such list. -/
theorem Collapses.eq {violations kept kept' : List Violation} (h : Collapses violations kept)
    (h' : Collapses violations kept') : kept = kept' := by
  have hoffsets : kept.map Violation.offset = kept'.map Violation.offset := by
    refine List.Perm.eq_of_pairwise ?_ h.ordered h'.ordered
      ((List.perm_ext_iff_of_nodup h.nodup h'.nodup).mpr fun o => ?_)
    · intro o p _ _ hlt hgt
      omega
    · rw [h.mem_offsets_iff, h'.mem_offsets_iff]
  have hlength : kept.length = kept'.length := by
    simpa using congrArg List.length hoffsets
  refine List.ext_getElem hlength fun i hi hi' => ?_
  refine (h.first _ (List.getElem_mem hi)).eq (h'.first _ (List.getElem_mem hi')) ?_
  have hget : (kept.map Violation.offset)[i]? = (kept'.map Violation.offset)[i]? := by
    rw [hoffsets]
  simpa [hi, hi'] using hget

theorem keepHighest_append (violations more : List Violation) :
    keepHighest (violations ++ more) =
      more.foldl (fun kept violation => keepGraver violation kept) (keepHighest violations) :=
  List.foldl_append

theorem collapses_self {violations : List Violation}
    (h : (violations.map Violation.offset).Nodup) : Collapses violations violations where
  ordered := by
    refine List.pairwise_iff_getElem.mpr fun i j hi hj hij => ?_
    rwa [h.idxOf_getElem, h.idxOf_getElem]
  covers _ hv := List.mem_map_of_mem hv
  first v hv := by
    obtain ⟨before, after, rfl⟩ := List.append_of_mem hv
    have hother : ∀ w ∈ before ++ after, w.offset ≠ v.offset := by
      rw [List.map_append, List.map_cons, List.nodup_middle, List.nodup_cons, ← List.map_append] at h
      exact fun w hw he => h.1 (he ▸ List.mem_map_of_mem hw)
    exact ⟨before, after, rfl, fun w hw he => absurd he (hother w (by simp [hw])),
      fun w hw he => absurd he (hother w (by simp [hw]))⟩

theorem keepHighest_of_nodup {violations : List Violation}
    (h : (violations.map Violation.offset).Nodup) : keepHighest violations = violations :=
  (collapses_keepHighest violations).eq (collapses_self h)

theorem keepHighest_keepHighest (violations : List Violation) :
    keepHighest (keepHighest violations) = keepHighest violations :=
  keepHighest_of_nodup (collapses_keepHighest violations).nodup

theorem keepGraver_of_not_mem {v : Violation} {kept : List Violation}
    (h : v.offset ∉ kept.map Violation.offset) : keepGraver v kept = kept ++ [v] := by
  induction kept with
  | nil => rfl
  | cons k rest ih =>
    rw [List.map_cons, List.mem_cons, not_or] at h
    rw [keepGraver, if_neg (Ne.symm h.1), ih h.2, List.cons_append]

theorem keepGraver_of_slot {v : Violation} {kept : List Violation} {i : Nat}
    (hnodup : (kept.map Violation.offset).Nodup)
    (h : (kept.map Violation.offset)[i]? = some v.offset) :
    keepGraver v kept = kept.modify i fun k =>
      if k.severity.rank < v.severity.rank then v else k := by
  induction kept generalizing i with
  | nil => simp at h
  | cons k rest ih =>
    obtain ⟨hk, hrest⟩ := List.nodup_cons.mp hnodup
    cases i with
    | zero =>
      have hoffset : k.offset = v.offset := by simpa using h
      rw [keepGraver, if_pos hoffset, List.modify_zero_cons]
    | succ i =>
      have hi : (rest.map Violation.offset)[i]? = some v.offset := by simpa using h
      have hoffset : k.offset ≠ v.offset := fun he => hk (he ▸ List.mem_of_getElem? hi)
      rw [keepGraver, if_neg hoffset, ih hrest hi, List.modify_succ_cons]

/-! ### In place, with an index -/

/-- What is kept, and for each offset the slot of its violation. -/
structure Slots where
  index : Std.HashMap Nat Nat
  kept : Array Violation

namespace Slots

def empty : Slots := ⟨∅, #[]⟩

/-- Takes a violation in: into the slot of its offset if it is graver than what is there, and into a
new one if there is none. -/
def take (slots : Slots) (v : Violation) : Slots :=
  match slots.index[v.offset]? with
  | some i =>
    { slots with kept := slots.kept.modify i fun k =>
        if k.severity.rank < v.severity.rank then v else k }
  | none => ⟨slots.index.insert v.offset slots.kept.size, slots.kept.push v⟩

/-- The index leads to the slot of each offset that is kept, and nowhere else. -/
def Aligned (slots : Slots) : Prop :=
  ∀ offset i : Nat, slots.index[offset]? = some i ↔
    (slots.kept.toList.map Violation.offset)[i]? = some offset

variable {slots : Slots}

theorem Aligned.nodup (h : slots.Aligned) : (slots.kept.toList.map Violation.offset).Nodup := by
  refine List.nodup_iff_getElem?_ne_getElem?.mpr fun i j hij hj he => ?_
  have hget := List.getElem?_eq_getElem hj
  have hi := (h _ i).mpr (he.trans hget)
  rw [(h _ j).mpr hget] at hi
  exact absurd (Option.some.inj hi) (Nat.ne_of_gt hij)

/-- The slots stay aligned, and hold what is kept when the violation is taken in. -/
theorem Aligned.take (h : slots.Aligned) (v : Violation) :
    (slots.take v).Aligned ∧ (slots.take v).kept.toList = keepGraver v slots.kept.toList := by
  cases hslot : slots.index[v.offset]? with
  | none =>
    have hnew : v.offset ∉ slots.kept.toList.map Violation.offset := by
      intro hmem
      obtain ⟨i, hi⟩ := List.getElem?_of_mem hmem
      rw [(h _ i).mpr hi] at hslot
      cases hslot
    have htake : slots.take v =
        ⟨slots.index.insert v.offset slots.kept.size, slots.kept.push v⟩ := by
      rw [Slots.take, hslot]
    rw [htake, keepGraver_of_not_mem hnew]
    refine ⟨fun offset i => ?_, by simp⟩
    have hsize : slots.kept.size = (slots.kept.toList.map Violation.offset).length := by simp
    rw [Std.HashMap.getElem?_insert, Array.toList_push, List.map_append, List.getElem?_append,
      hsize]
    by_cases hi : i < (slots.kept.toList.map Violation.offset).length
    · rw [if_pos hi, ← h]
      by_cases hoffset : v.offset = offset
      · subst hoffset
        simp only [beq_self_eq_true, if_true, Option.some.injEq, hslot]
        exact ⟨fun he => absurd hi (by omega), nofun⟩
      · simp [hoffset]
    · have hnone : slots.index[offset]? ≠ some i := fun hslot =>
        hi (List.getElem?_eq_some_iff.mp ((h _ i).mp hslot)).1
      rw [if_neg hi]
      by_cases hoffset : v.offset = offset
      · simp [hoffset, List.getElem?_singleton]
        omega
      · simp [hoffset, List.getElem?_singleton, hnone]
  | some i =>
    have hget := (h _ i).mp hslot
    have htake : (slots.take v).kept.toList = keepGraver v slots.kept.toList := by
      rw [keepGraver_of_slot h.nodup hget, Slots.take, hslot]
      simp
    refine ⟨fun offset j => ?_, htake⟩
    have hindex : (slots.take v).index = slots.index := by
      rw [Slots.take, hslot]
    rw [htake, offsets_keepGraver, if_pos (List.mem_of_getElem? hget), hindex]
    exact h offset j

theorem Aligned.run (h : slots.Aligned) (violations : List Violation) :
    (violations.foldl Slots.take slots).Aligned ∧
      (violations.foldl Slots.take slots).kept.toList =
        violations.foldl (fun kept violation => keepGraver violation kept) slots.kept.toList := by
  induction violations generalizing slots with
  | nil => exact ⟨h, rfl⟩
  | cons v violations ih =>
    obtain ⟨haligned, hkept⟩ := h.take v
    rw [List.foldl_cons, List.foldl_cons, ← hkept]
    exact ih haligned

theorem aligned_empty : empty.Aligned := by
  intro offset i
  simp [empty]

end Slots

/-- Collapsing is exact: it keeps the first of the gravest violations at each offset, in the order
in which the offsets first occur, and this says all about the list. So collapsing what is collapsed
changes nothing, nor does collapsing a front part beforehand, and a list with one violation at each
offset stays as it is. A pass that keeps an index of slots and changes them in place comes to the
same list, with the index leading to the slot of each offset. -/
theorem keepHighest_exact (violations : List Violation) :
    (∀ kept, Collapses violations kept ↔ kept = keepHighest violations) ∧
    ((keepHighest violations).map Violation.offset).Nodup ∧
    keepHighest (keepHighest violations) = keepHighest violations ∧
    (∀ more, keepHighest (keepHighest violations ++ more) = keepHighest (violations ++ more)) ∧
    ((violations.map Violation.offset).Nodup → keepHighest violations = violations) ∧
    (violations.foldl Slots.take .empty).Aligned ∧
      (violations.foldl Slots.take .empty).kept.toList = keepHighest violations := by
  have hcollapses := collapses_keepHighest violations
  refine ⟨fun kept => ⟨fun h => h.eq hcollapses, fun h => h ▸ hcollapses⟩, hcollapses.nodup,
    keepHighest_keepHighest violations, fun more => ?_, keepHighest_of_nodup,
    Slots.aligned_empty.run violations⟩
  rw [keepHighest_append, keepHighest_append, keepHighest_keepHighest]

/-- Two violations at one offset with others between them, the graver one last, and two warnings at
another. -/
def mixed : List Violation :=
  [⟨"a", .warning, 7, "one"⟩, ⟨"a", .warning, 3, "two"⟩, ⟨"b", .warning, 3, "three"⟩,
    ⟨"b", .error, 7, "four"⟩, ⟨"c", .error, 7, "five"⟩]

def mixedKept : List Violation := [⟨"b", .error, 7, "four"⟩, ⟨"a", .warning, 3, "two"⟩]

theorem keepHighest_exact_mixed : keepHighest mixed = mixedKept ∧ Collapses mixed mixedKept ∧
    (mixedKept.map Violation.offset).Nodup ∧ keepHighest mixedKept = mixedKept := by
  have hkept : keepHighest mixed = mixedKept := by decide
  have hnodup : (mixedKept.map Violation.offset).Nodup := by decide
  exact ⟨hkept, ((keepHighest_exact mixed).1 mixedKept).mpr hkept.symm, hnodup,
    (keepHighest_exact mixedKept).2.2.2.2.1 hnodup⟩

end ClosureLint
