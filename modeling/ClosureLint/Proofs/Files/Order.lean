import ClosureLint.Files.Collect

/-! The order of paths. It goes by components and is total, so the files that are collected come
strictly one behind the other, and no spelling comes twice. -/

namespace ClosureLint

open Std (LawfulEqCmp OrientedCmp TransCmp)

namespace Component

/-- The name of a component, and nothing for the other kinds. -/
def text : Component → String
  | .name s => s
  | _ => ""

theorem compare_eq : compare = compareLex (compareOn rank) (compareOn text) := by
  funext a b
  cases a <;> cases b <;> rfl

instance : TransCmp compare := by
  rw [compare_eq]
  infer_instance

theorem eq_of_rank_eq {a b : Component} (hrank : a.rank = b.rank) (htext : a.text = b.text) :
    a = b := by
  cases a <;> cases b <;> first | rfl | exact congrArg name htext | cases hrank

instance : LawfulEqCmp compare where
  eq_of_compare h := by
    rw [compare_eq, compareLex_eq_eq] at h
    exact eq_of_rank_eq (LawfulEqCmp.eq_of_compare h.1) (LawfulEqCmp.eq_of_compare h.2)

end Component

namespace Path

theorem compareComponents_eq : compareComponents = List.compareLex Component.compare := by
  funext a b
  induction a generalizing b with
  | nil => cases b <;> rfl
  | cons x a ih =>
    cases b with
    | nil => rfl
    | cons y b => rw [compareComponents, List.compareLex_cons_cons, ih]

instance : TransCmp compareComponents := by
  rw [compareComponents_eq]
  infer_instance

instance : LawfulEqCmp compareComponents := by
  rw [compareComponents_eq]
  infer_instance

theorem components_eq_of_compare {p q : Path} (h : p.compare q = .eq) :
    p.components = q.components :=
  @LawfulEqCmp.eq_of_compare _ compareComponents _ _ _ h

theorem compare_eq_of_components {p q : Path} (h : p.components = q.components) :
    p.compare q = .eq := by
  rw [compare, h]
  exact @Std.ReflCmp.compare_self _ compareComponents _ q.components

instance : TransCmp compare where
  eq_swap {a b} := @OrientedCmp.eq_swap _ compareComponents _ a.components b.components
  isLE_trans {a b c} :=
    @TransCmp.isLE_trans _ compareComponents _ a.components b.components c.components

end Path

/-! ### Sorted lists without repetitions -/

section EraseReps

variable {α : Type} {cmp : α → α → Ordering}

theorem eraseRepsBy_loop (r : α → α → Bool) (a : α) (l acc : List α) :
    List.eraseRepsBy.loop r a l acc = acc.reverse ++ List.eraseRepsBy r (a :: l) := by
  rw [List.eraseRepsBy]
  induction l generalizing a acc with
  | nil => simp [List.eraseRepsBy.loop]
  | cons b l ih =>
    rw [List.eraseRepsBy.loop, List.eraseRepsBy.loop]
    cases r a b with
    | true => exact ih a acc
    | false => rw [ih b (a :: acc), ih b [a]]; simp

theorem eraseRepsBy_cons_cons (r : α → α → Bool) (a b : α) (l : List α) :
    List.eraseRepsBy r (a :: b :: l) =
      if r a b then List.eraseRepsBy r (a :: l) else a :: List.eraseRepsBy r (b :: l) := by
  rw [List.eraseRepsBy, List.eraseRepsBy.loop]
  cases r a b with
  | true => rfl
  | false => exact eraseRepsBy_loop r b l [a]

theorem eraseRepsBy_sublist (r : α → α → Bool) (a : α) (l : List α) :
    (List.eraseRepsBy r (a :: l)).Sublist (a :: l) := by
  induction l generalizing a with
  | nil => exact List.Sublist.refl _
  | cons b l ih =>
    rw [eraseRepsBy_cons_cons]
    split
    · exact (ih a).trans (.cons_cons a (List.sublist_cons_self b l))
    · exact .cons_cons a (ih b)

/-- A sorted list is strictly sorted when it has lost its repetitions. -/
theorem pairwise_eraseRepsBy [TransCmp cmp] {l : List α} (h : l.Pairwise fun a b => cmp a b ≠ .gt) :
    (l.eraseRepsBy fun a b => cmp a b == .eq).Pairwise fun a b => cmp a b = .lt := by
  cases l with
  | nil => exact .nil
  | cons a l =>
    induction l generalizing a with
    | nil => exact List.pairwise_singleton ..
    | cons b l ih =>
      obtain ⟨ha, hl⟩ := List.pairwise_cons.mp h
      rw [eraseRepsBy_cons_cons]
      split
      next => exact ih a (h.sublist (.cons_cons a (List.sublist_cons_self b l)))
      next hne =>
        have hab : cmp a b = .lt := by
          have := ha b (List.mem_cons_self ..)
          cases hcmp : cmp a b with
          | lt => rfl
          | eq => simp [hcmp] at hne
          | gt => exact absurd hcmp this
        refine .cons (fun c hc => ?_) (ih b hl)
        -- What follows `b` is not before it.
        rcases List.mem_cons.mp ((eraseRepsBy_sublist _ b l).subset hc) with rfl | hc
        · exact hab
        · exact TransCmp.lt_of_lt_of_isLE hab
            (Ordering.isLE_iff_ne_gt.mpr ((List.pairwise_cons.mp hl).1 c hc))

end EraseReps

namespace Path

theorem le_trans (a b c : Path) (hab : (a.compare b != .gt) = true)
    (hbc : (b.compare c != .gt) = true) : (a.compare c != .gt) = true := by
  simp only [bne_iff_ne, ← Ordering.isLE_iff_ne_gt] at hab hbc ⊢
  exact TransCmp.isLE_trans hab hbc

theorem le_total (a b : Path) : (a.compare b != .gt || b.compare a != .gt) = true := by
  rw [@OrientedCmp.eq_swap _ Path.compare _ b a]
  cases a.compare b <;> rfl

end Path

/-- The files that are collected come strictly one behind the other. -/
theorem sortPaths_sorted (paths : List Path) :
    (sortPaths paths).Pairwise fun a b => a.compare b = .lt := by
  have hsorted := List.pairwise_mergeSort Path.le_trans Path.le_total paths
  exact pairwise_eraseRepsBy (hsorted.imp fun h => by simpa using h)

theorem nodup_sortPaths (paths : List Path) : ((sortPaths paths).map Path.spelling).Nodup := by
  refine List.pairwise_map.mpr ((sortPaths_sorted paths).imp fun {a b} hlt he => ?_)
  obtain rfl : a = b := congrArg Path.mk he
  rw [@Std.ReflCmp.compare_self _ Path.compare _ a] at hlt
  cases hlt

theorem nodup_collectFiles {files : FileSystem} {extensions : List String} {paths found : List Path}
    (h : collectFiles files extensions paths = .ok found) : (found.map Path.spelling).Nodup := by
  unfold collectFiles at h
  cases hall : paths.mapM (filesAt files extensions) with
  | error error => rw [hall] at h; cases h
  | ok all =>
    rw [hall] at h
    obtain rfl := Except.ok.inj h
    exact nodup_sortPaths _

end ClosureLint
