import ClosureLint.Project

/-! The findings in a report: those in the files that were collected, put in order. Whether there is
a report does not depend on the rules, nor on whether only the gravest findings are kept. -/

namespace ClosureLint

/-! ### The order of findings -/

namespace Finding

theorem le_iff {a b : Finding} : a.le b = true ↔
    compare a.path b.path = .lt ∨
      compare a.path b.path = .eq ∧ a.violation.offset ≤ b.violation.offset := by
  rw [le]
  split <;> simp [*]

theorem le_trans (a b c : Finding) (hab : a.le b = true) (hbc : b.le c = true) :
    a.le c = true := by
  rw [le_iff] at hab hbc ⊢
  rcases hab with hab | ⟨hab, hab'⟩
  · rcases hbc with hbc | ⟨hbc, -⟩
    · exact .inl (Std.TransCmp.lt_trans hab hbc)
    · exact .inl (Std.TransCmp.lt_of_lt_of_eq hab hbc)
  · rcases hbc with hbc | ⟨hbc, hbc'⟩
    · exact .inl (Std.TransCmp.lt_of_eq_of_lt hab hbc)
    · exact .inr ⟨Std.TransCmp.eq_trans hab hbc, Nat.le_trans hab' hbc'⟩

theorem le_total (a b : Finding) : (a.le b || b.le a) = true := by
  rw [Bool.or_eq_true, le_iff, le_iff, @Std.OrientedCmp.eq_swap String compare _ b.path a.path]
  cases compare a.path b.path with
  | lt => exact .inl (.inl rfl)
  | eq => exact (Nat.le_total _ _).imp (fun h => .inr ⟨rfl, h⟩) fun h => .inr ⟨rfl, h⟩
  | gt => exact .inr (.inl rfl)

end Finding

section StableSort

variable {α : Type} {le : α → α → Bool}

/-- An element of a sorted list is in front of those that it does not come after, if it comes after
all that stand in front of it. -/
theorem filter_sorted {a : α} {before after : List α}
    (hsorted : (before ++ a :: after).Pairwise fun a b => le a b = true)
    (hbefore : ∀ b ∈ before, (!le a b) = true) :
    (before ++ after).filter (fun b => !le a b) = before ∧
      (before ++ after).filter (le a) = after := by
  have hafter : ∀ b ∈ after, le a b = true :=
    (List.pairwise_cons.mp (List.pairwise_append.mp hsorted).2.1).1
  rw [List.filter_append, List.filter_append, List.filter_eq_self.mpr hbefore,
    List.filter_eq_self.mpr hafter, List.filter_eq_nil_iff.mpr, List.filter_eq_nil_iff.mpr]
  · exact ⟨List.append_nil _, rfl⟩
  · intro b hb h
    simpa [h] using hbefore b hb
  · intro b hb
    simp [hafter b hb]

/-- A stable sort takes a part of a list to a part of the sorted list. -/
theorem mergeSort_sublist (trans : ∀ a b c, le a b = true → le b c = true → le a c = true)
    (total : ∀ a b, (le a b || le b a) = true) {l m : List α} (h : l.Sublist m) :
    (l.mergeSort le).Sublist (m.mergeSort le) := by
  induction h with
  | slnil => exact List.Sublist.refl _
  | @cons l m a h ih =>
    obtain ⟨before, after, hlong, hshort, -⟩ := List.mergeSort_cons trans total a m
    rw [hlong]
    rw [hshort] at ih
    exact ih.trans (List.Sublist.append_left (List.sublist_cons_self a after) before)
  | @cons_cons l m a h ih =>
    -- The new element comes to the same place in both lists: behind those that are smaller.
    obtain ⟨before, after, hl, hl', hbefore⟩ := List.mergeSort_cons trans total a l
    obtain ⟨before', after', hm, hm', hbefore'⟩ := List.mergeSort_cons trans total a m
    have hsorted := List.pairwise_mergeSort trans total (a :: l)
    have hsorted' := List.pairwise_mergeSort trans total (a :: m)
    rw [hl] at hsorted
    rw [hm] at hsorted'
    obtain ⟨hfront, hback⟩ := filter_sorted hsorted hbefore
    obtain ⟨hfront', hback'⟩ := filter_sorted hsorted' hbefore'
    rw [hl', hm'] at ih
    have hbefores := ih.filter fun b => !le a b
    have hafters := ih.filter (le a)
    rw [hfront, hfront'] at hbefores
    rw [hback, hback'] at hafters
    rw [hl, hm]
    exact hbefores.append (.cons_cons a hafters)

/-- A stable sort puts a part of a list in the order in which it would put the part alone. -/
theorem filter_mergeSort (trans : ∀ a b c, le a b = true → le b c = true → le a c = true)
    (total : ∀ a b, (le a b || le b a) = true) (p : α → Bool) (l : List α) :
    (l.mergeSort le).filter p = (l.filter p).mergeSort le := by
  have hpart : ((l.filter p).mergeSort le).filter p = (l.filter p).mergeSort le :=
    List.filter_eq_self.mpr fun a ha =>
      (List.mem_filter.mp (List.mem_mergeSort.mp ha)).2
  have hsub := (mergeSort_sublist trans total (@List.filter_sublist _ p l)).filter p
  rw [hpart] at hsub
  refine (hsub.eq_of_length ?_).symm
  rw [(List.mergeSort_perm _ _).length_eq, ((List.mergeSort_perm l le).filter p).length_eq]

end StableSort

/-! ### The findings of a report -/

namespace Linter

/-- The findings in the file at a path, none if it is no file with a text. -/
def findingsAt (linter : Linter) (files : FileSystem) (highestOnly : Bool) (path : Path) :
    List Finding :=
  match files.readText path with
  | .ok text =>
    (if highestOnly then keepHighest (linter.lint path text) else linter.lint path text).map
      (Finding.locate path.spelling text)
  | .error _ => []

theorem findingsIn_eq {linter : Linter} {files : FileSystem} {highestOnly : Bool} {path : Path}
    {content : Content} (h : files.read path = .ok content) :
    linter.findingsIn highestOnly path content = linter.findingsAt files highestOnly path := by
  rw [findingsAt, FileSystem.readText, h]
  cases content <;> rfl

theorem mem_findingsAt {linter : Linter} {files : FileSystem} {path : Path} {f : Finding} :
    f ∈ linter.findingsAt files false path ↔ ∃ text, files.readText path = .ok text ∧
      ∃ v ∈ linter.lint path text, f = Finding.locate path.spelling text v := by
  rw [findingsAt]
  cases files.readText path with
  | error error => simp
  | ok text => simp [eq_comm]

theorem path_of_mem_findingsAt {linter : Linter} {files : FileSystem} {highestOnly : Bool}
    {path : Path} {f : Finding} (h : f ∈ linter.findingsAt files highestOnly path) :
    f.path = path.spelling := by
  rw [findingsAt] at h
  split at h
  · obtain ⟨v, -, rfl⟩ := List.mem_map.mp h
    rfl
  · cases h

end Linter

theorem bind_eq_ok_iff {ε α β : Type} {x : Except ε α} {f : α → Except ε β} {b : β} :
    (x >>= f) = .ok b ↔ ∃ a, x = .ok a ∧ f a = .ok b := by
  cases x with
  | error error => simp [bind, Except.bind]
  | ok a => simp [bind, Except.bind]

theorem mapM_eq_ok_iff {ε α β : Type} {f : α → Except ε β} {p : α → Prop} {value : α → β}
    (hf : ∀ a b, f a = .ok b ↔ p a ∧ b = value a) {l : List α} {bs : List β} :
    l.mapM f = .ok bs ↔ (∀ a ∈ l, p a) ∧ bs = l.map value := by
  induction l generalizing bs with
  | nil => simp [pure, Except.pure, eq_comm]
  | cons a l ih =>
    rw [List.mapM_cons, List.forall_mem_cons, List.map_cons, bind_eq_ok_iff]
    simp only [bind_eq_ok_iff, hf, ih, pure, Except.pure, Except.ok.injEq]
    constructor
    · rintro ⟨_, ⟨ha, rfl⟩, _, ⟨hl, rfl⟩, rfl⟩
      exact ⟨⟨ha, hl⟩, rfl⟩
    · rintro ⟨⟨ha, hl⟩, rfl⟩
      exact ⟨_, ⟨ha, rfl⟩, _, ⟨hl, rfl⟩, rfl⟩

namespace Report

variable {linter : Linter} {files : FileSystem} {highestOnly : Bool} {paths : List Path}
  {report : Report}

/-- There is a report if files can be collected and read, and then it holds the findings in them. -/
theorem ofPaths_eq_ok_iff : ofPaths linter files highestOnly paths = .ok report ↔
    ∃ found, collectFiles files linter.extensions paths = .ok found ∧
      (∀ path ∈ found, ∃ content, files.read path = .ok content) ∧
        report = ofFiles (found.map (linter.findingsAt files highestOnly)) := by
  have hcollect : ∀ found, (collectFiles files linter.extensions paths).mapError
      ReportError.collect = .ok found ↔ collectFiles files linter.extensions paths = .ok found := by
    intro found
    cases collectFiles files linter.extensions paths with
    | error error => exact ⟨nofun, nofun⟩
    | ok _ => exact ⟨fun h => congrArg _ (Except.ok.inj h), fun h => congrArg _ (Except.ok.inj h)⟩
  unfold ofPaths
  simp only [bind_eq_ok_iff, hcollect, pure, Except.pure, Except.ok.injEq]
  refine exists_congr fun found => and_congr_right fun _ => ?_
  refine (exists_congr fun perFile => and_congr_left' (@mapM_eq_ok_iff _ _ _ _
    (fun path => ∃ content, files.read path = .ok content) (linter.findingsAt files highestOnly)
    (fun path findings => ?_) _ _)).trans ⟨?_, ?_⟩
  · cases hcontent : files.read path with
    | error error => simp
    | ok content => simp [Linter.findingsIn_eq hcontent, eq_comm]
  · rintro ⟨_, ⟨hfound, rfl⟩, rfl⟩
    exact ⟨hfound, rfl⟩
  · rintro ⟨hfound, rfl⟩
    exact ⟨_, ⟨hfound, rfl⟩, rfl⟩

theorem mem_findings_ofFiles {perFile : List (List Finding)} {f : Finding} :
    f ∈ (ofFiles perFile).findings ↔ ∃ findings ∈ perFile, f ∈ findings := by
  rw [ofFiles, (List.mergeSort_perm _ _).mem_iff, List.mem_flatten]

end Report

end ClosureLint
