import ClosureLint.Proofs.Files.Order
import ClosureLint.Proofs.Report.Findings

/-! Which files are collected. A file that is named in an argument is collected whatever its name,
and of the files in a directory those with one of the extensions; nothing else is. Of several
spellings with the same components one is kept. -/

namespace ClosureLint

/-! ### What sorting keeps -/

theorem mem_of_mem_sortPaths {paths : List Path} {path : Path} (h : path ∈ sortPaths paths) :
    path ∈ paths := by
  rw [sortPaths] at h
  rw [← @List.mem_mergeSort _ fun a b => a.compare b != .gt]
  cases hsorted : paths.mergeSort fun a b => a.compare b != .gt with
  | nil =>
    rw [hsorted] at h
    exact h
  | cons first rest =>
    rw [hsorted] at h
    exact (eraseRepsBy_sublist _ first rest).subset h

/-- What is taken out of a list as a repetition is no first match, where it matches like what it
repeats. -/
theorem find?_eraseRepsBy {α : Type} {r : α → α → Bool} {p : α → Bool}
    (hr : ∀ a b, r a b = true → p b = true → p a = true) (l : List α) :
    (l.eraseRepsBy r).find? p = l.find? p := by
  cases l with
  | nil => rfl
  | cons a l =>
    induction l generalizing a with
    | nil => rfl
    | cons b l ih =>
      rw [eraseRepsBy_cons_cons]
      split
      next hab =>
        rw [ih a, List.find?_cons, List.find?_cons, List.find?_cons]
        cases hpa : p a with
        | true => rfl
        | false =>
          have hpb : p b = false := Bool.eq_false_iff.mpr fun hpb =>
            Bool.eq_false_iff.mp hpa (hr a b hab hpb)
          simp only [hpb]
      next => rw [List.find?_cons, List.find?_cons, ih b]

/-- Of several spellings the one that comes first is kept. -/
theorem find?_sortPaths (paths : List Path) (components : List Component) :
    (sortPaths paths).find? (fun other => other.components = components) =
      paths.find? fun other => other.components = components := by
  have hrepeats : ∀ a b : Path, (a.compare b == .eq) = true →
      decide (b.components = components) = true → decide (a.components = components) = true := by
    simp only [beq_iff_eq, decide_eq_true_eq]
    exact fun a b hab hb => (Path.components_eq_of_compare hab).trans hb
  have hties : (paths.filter fun other => other.components = components).Pairwise fun a b =>
      (a.compare b != .gt) = true := by
    refine List.pairwise_of_forall_mem_list fun a ha b hb => ?_
    have ha := of_decide_eq_true (List.mem_filter.mp ha).2
    have hb := of_decide_eq_true (List.mem_filter.mp hb).2
    rw [Path.compare_eq_of_components (ha.trans hb.symm)]
    rfl
  rw [sortPaths, find?_eraseRepsBy hrepeats, ← List.head?_filter, ← List.head?_filter,
    filter_mergeSort Path.le_trans Path.le_total, List.mergeSort_of_pairwise hties]

theorem sortPaths_of_sorted {paths : List Path}
    (h : paths.Pairwise fun a b => a.compare b = .lt) : sortPaths paths = paths := by
  have hsorted : paths.mergeSort (fun a b => a.compare b != .gt) = paths :=
    List.mergeSort_of_pairwise (h.imp fun hlt => by rw [hlt]; rfl)
  rw [sortPaths, hsorted]
  clear hsorted
  cases paths with
  | nil => rfl
  | cons a paths =>
    induction paths generalizing a with
    | nil => rfl
    | cons b paths ih =>
      obtain ⟨ha, hpaths⟩ := List.pairwise_cons.mp h
      rw [eraseRepsBy_cons_cons, ha b (List.mem_cons_self ..), ih b hpaths]
      rfl

/-! ### What arguments stand for -/

variable {files : FileSystem} {extensions : List String} {argument : Path} {listed : List Path}

theorem FileSystem.node_eq_ok_iff {path : Path} {node : Node} : files.node path = .ok node ↔
    ∃ location, files.resolve path = .ok location ∧ files.root.at? location = some node := by
  rw [FileSystem.node, bind_eq_ok_iff]
  refine exists_congr fun location => and_congr_right fun _ => ?_
  cases files.root.at? location <;> simp

theorem filesAt_file {content : Content} (h : files.node argument = .ok (.file content)) :
    filesAt files extensions argument = .ok [argument] := by
  obtain ⟨location, hresolve, -⟩ := FileSystem.node_eq_ok_iff.mp h
  simp [filesAt, hresolve, h]

/-- Around the root there are no directories that could have ignore files. -/
theorem filesAt_root {entries : List (String × Node)} (hresolve : files.resolve argument = .ok [])
    (hnode : files.node argument = .ok (.directory entries)) :
    filesAt files extensions argument =
      .ok ((walkNode files [] [] argument (.directory entries)).filter
        (hasExtension extensions)) := by
  simp [filesAt, hresolve, hnode, enclosing]

/-- An argument stands for itself if it leads to a file, and for what a walk finds if it leads to a
directory. -/
theorem filesAt_cases (h : filesAt files extensions argument = .ok listed) :
    (∃ content, files.node argument = .ok (.file content) ∧ listed = [argument]) ∨
      ∃ location entries, files.resolve argument = .ok location ∧
        files.node argument = .ok (.directory entries) ∧
          listed = (walkNode files ((enclosing location).map (IgnoreLayer.load files)).reverse
            location argument (.directory entries)).filter (hasExtension extensions) := by
  unfold filesAt at h
  split at h
  next location entries hresolve hnode =>
    simp only at h
    split at h
    · exact .inr ⟨location, entries, hresolve, hnode, (Except.ok.inj h).symm⟩
    · cases h
  next location content _ hnode => exact .inl ⟨content, hnode, (Except.ok.inj h).symm⟩
  next => cases h
  next => cases h

variable {paths found : List Path}

/-- All that the arguments stand for, one argument behind the other. -/
def listing (files : FileSystem) (extensions : List String) (paths : List Path) : List Path :=
  (paths.map fun argument => (filesAt files extensions argument).toOption.getD []).flatten

theorem collectFiles_eq_ok_iff : collectFiles files extensions paths = .ok found ↔
    (∀ argument ∈ paths, ∃ listed, filesAt files extensions argument = .ok listed) ∧
      found = sortPaths (listing files extensions paths) := by
  have hlisted : ∀ argument listed, filesAt files extensions argument = .ok listed ↔
      (∃ listed, filesAt files extensions argument = .ok listed) ∧
        listed = (filesAt files extensions argument).toOption.getD [] := by
    intro argument listed
    cases filesAt files extensions argument with
    | error error => simp
    | ok listed' => simp [Except.toOption, eq_comm]
  rw [collectFiles, bind_eq_ok_iff]
  simp only [mapM_eq_ok_iff hlisted, pure, Except.pure, Except.ok.injEq]
  constructor
  · rintro ⟨_, ⟨hall, rfl⟩, rfl⟩
    exact ⟨hall, rfl⟩
  · rintro ⟨hall, rfl⟩
    exact ⟨_, ⟨hall, rfl⟩, rfl⟩

theorem sorted_collectFiles (h : collectFiles files extensions paths = .ok found) :
    found.Pairwise fun a b => a.compare b = .lt := by
  obtain ⟨-, rfl⟩ := collectFiles_eq_ok_iff.mp h
  exact sortPaths_sorted _

theorem collectFiles_files (h : ∀ path ∈ paths, ∃ content, files.node path = .ok (.file content))
    (hsorted : paths.Pairwise fun a b => a.compare b = .lt) :
    collectFiles files extensions paths = .ok paths := by
  have hlisted : ∀ path ∈ paths, filesAt files extensions path = .ok [path] := fun path hpath =>
    (h path hpath).elim fun _ => filesAt_file
  refine collectFiles_eq_ok_iff.mpr ⟨fun path hpath => ⟨_, hlisted path hpath⟩, ?_⟩
  have hmap : (paths.map fun path => (filesAt files extensions path).toOption.getD []) =
      paths.map fun path => [path] :=
    List.map_congr_left fun path hpath => by rw [hlisted path hpath]; rfl
  rw [listing, hmap, ← List.flatMap_def, List.flatMap_singleton', sortPaths_of_sorted hsorted]

theorem exists_argument (h : collectFiles files extensions paths = .ok found) {path : Path}
    (hpath : path ∈ found) : ∃ argument ∈ paths, ∃ listed,
      filesAt files extensions argument = .ok listed ∧ path ∈ listed := by
  obtain ⟨hall, rfl⟩ := collectFiles_eq_ok_iff.mp h
  obtain ⟨_, hlisted, hpath⟩ := List.mem_flatten.mp (mem_of_mem_sortPaths hpath)
  obtain ⟨argument, hargument, rfl⟩ := List.mem_map.mp hlisted
  obtain ⟨listed, hlisted⟩ := hall argument hargument
  rw [hlisted] at hpath
  exact ⟨argument, hargument, listed, hlisted, hpath⟩

/-- What an argument stands for is collected, in the spelling that is listed first among those with
the same components. -/
theorem find?_listing (h : collectFiles files extensions paths = .ok found)
    (hargument : argument ∈ paths) (hlisted : filesAt files extensions argument = .ok listed)
    {path : Path} (hpath : path ∈ listed) : ∃ kept ∈ found,
      (listing files extensions paths).find? (fun other => other.components = path.components) =
        some kept := by
  obtain ⟨-, rfl⟩ := collectFiles_eq_ok_iff.mp h
  have hmem : path ∈ listing files extensions paths :=
    List.mem_flatten.mpr ⟨_, List.mem_map_of_mem hargument, by rwa [hlisted]⟩
  obtain ⟨kept, hkept⟩ : ∃ kept, (listing files extensions paths).find?
      (fun other => other.components = path.components) = some kept :=
    Option.isSome_iff_exists.mp (List.find?_isSome.mpr ⟨path, hmem, by simp⟩)
  exact ⟨kept, List.mem_of_find?_eq_some ((find?_sortPaths ..).trans hkept), hkept⟩

theorem components_of_find? {components : List Component} {kept : Path}
    (h : paths.find? (fun other => other.components = components) = some kept) :
    kept.components = components := by
  simpa using List.find?_some h

theorem exists_kept (h : collectFiles files extensions paths = .ok found)
    (hargument : argument ∈ paths) (hlisted : filesAt files extensions argument = .ok listed)
    {path : Path} (hpath : path ∈ listed) : ∃ kept ∈ found, kept.compare path = .eq := by
  obtain ⟨kept, hkept, hfirst⟩ := find?_listing h hargument hlisted hpath
  exact ⟨kept, hkept, Path.compare_eq_of_components (components_of_find? hfirst)⟩

end ClosureLint
