import ClosureLint.Proofs.Report.Once
import Mathlib

/-! The order and the repetitions of path arguments. What is collected are the ways through the tree
that some argument stands for, in order, so it depends only on which arguments there are. The spelling
in which a way is kept is the one that is listed first, so the order of the arguments shows only where
a way is listed in two spellings. -/

namespace ClosureLint

/-! ### A sorted list is known by its elements -/

instance : Std.Irrefl fun a b : List Component => Path.compareComponents a b = .lt where
  irrefl a h := by
    rw [@Std.ReflCmp.compare_self _ Path.compareComponents _ a] at h
    cases h

instance : Std.Antisymm fun a b : List Component => Path.compareComponents a b = .lt where
  antisymm a b h h' := by
    rw [@Std.OrientedCmp.eq_swap _ Path.compareComponents _ b a, h] at h'
    cases h'

/-- Lists with the same components are the same if what has the same components is spelled the
same. -/
theorem eq_of_components_eq {found found' : List Path}
    (h : found.map Path.components = found'.map Path.components)
    (hspelling : ∀ a ∈ found, ∀ b ∈ found', a.components = b.components → a = b) :
    found = found' := by
  induction found generalizing found' with
  | nil => exact (List.map_eq_nil_iff.mp h.symm).symm
  | cons a found ih =>
    cases found' with
    | nil => cases h
    | cons b found' =>
      obtain ⟨hhead, htail⟩ := List.cons.inj h
      rw [hspelling a (List.mem_cons_self ..) b (List.mem_cons_self ..) hhead,
        ih htail fun c hc d hd =>
          hspelling c (List.mem_cons_of_mem _ hc) d (List.mem_cons_of_mem _ hd)]

/-! ### What some arguments stand for together -/

/-- One of the arguments stands for the path. -/
def Listed (files : FileSystem) (extensions : List String) (paths : List Path) (path : Path) :
    Prop :=
  ∃ argument ∈ paths, ∃ listed, filesAt files extensions argument = .ok listed ∧ path ∈ listed

variable {files : FileSystem} {extensions : List String} {paths paths' found found' : List Path}

theorem listed_congr (h : ∀ path, path ∈ paths ↔ path ∈ paths') {path : Path} :
    Listed files extensions paths path ↔ Listed files extensions paths' path :=
  exists_congr fun argument => and_congr_left fun _ => h argument

theorem mem_components_collectFiles (h : collectFiles files extensions paths = .ok found)
    {components : List Component} : components ∈ found.map Path.components ↔
      ∃ path, Listed files extensions paths path ∧ path.components = components := by
  rw [List.mem_map]
  constructor
  · rintro ⟨path, hpath, rfl⟩
    exact ⟨path, exists_argument h hpath, rfl⟩
  · rintro ⟨path, ⟨argument, hargument, listed, hlisted, hpath⟩, rfl⟩
    obtain ⟨kept, hkept, hsame⟩ := exists_kept h hargument hlisted hpath
    exact ⟨kept, hkept, Path.components_eq_of_compare hsame⟩

/-- Files are collected or not whatever the order of the arguments. -/
theorem exists_collectFiles_congr (hsame : ∀ path, path ∈ paths ↔ path ∈ paths') :
    (∃ found, collectFiles files extensions paths = .ok found) ↔
      ∃ found', collectFiles files extensions paths' = .ok found' := by
  simp only [collectFiles_eq_ok_iff, exists_and_left, exists_eq, and_true, hsame]

theorem components_collectFiles_congr (hsame : ∀ path, path ∈ paths ↔ path ∈ paths')
    (h : collectFiles files extensions paths = .ok found)
    (h' : collectFiles files extensions paths' = .ok found') :
    found.map Path.components = found'.map Path.components := by
  have hsorted : ∀ {paths found}, collectFiles files extensions paths = .ok found →
      (found.map Path.components).Pairwise fun a b => Path.compareComponents a b = .lt :=
    fun h => List.pairwise_map.mpr (sorted_collectFiles h)
  refine (hsorted h).eq_of_mem_iff (hsorted h') fun components => ?_
  rw [mem_components_collectFiles h, mem_components_collectFiles h']
  exact exists_congr fun path => and_congr_left fun _ => listed_congr hsame

theorem Report.ofPaths_congr {linter : Linter} {highestOnly : Bool}
    (h : collectFiles files linter.extensions paths = collectFiles files linter.extensions paths') :
    ofPaths linter files highestOnly paths = ofPaths linter files highestOnly paths' := by
  rw [ofPaths, ofPaths, h]

/-- Order and repetition of the arguments do not matter. With the same arguments, files are collected
both times or neither time. What is collected is strictly in order and has the same components, entry
by entry. If nothing that is listed comes in two spellings, it is the same, and so is any report. -/
theorem collectFiles_canonical (files : FileSystem) (extensions : List String)
    (paths paths' : List Path) (hsame : ∀ path, path ∈ paths ↔ path ∈ paths') :
    ((∃ found, collectFiles files extensions paths = .ok found) ↔
      ∃ found', collectFiles files extensions paths' = .ok found') ∧
    ∀ found found', collectFiles files extensions paths = .ok found →
      collectFiles files extensions paths' = .ok found' →
        (found.Pairwise fun a b => a.compare b = .lt) ∧
        (found'.Pairwise fun a b => a.compare b = .lt) ∧
        found.map Path.components = found'.map Path.components ∧
        ((∀ a b, Listed files extensions paths a → Listed files extensions paths b →
            a.compare b = .eq → a.spelling = b.spelling) →
          found.map Path.spelling = found'.map Path.spelling ∧
          ∀ linter : Linter, linter.extensions = extensions → ∀ highestOnly,
            Report.ofPaths linter files highestOnly paths =
              Report.ofPaths linter files highestOnly paths') := by
  refine ⟨exists_collectFiles_congr hsame, fun found found' h h' => ?_⟩
  have hcomponents := components_collectFiles_congr hsame h h'
  refine ⟨sorted_collectFiles h, sorted_collectFiles h', hcomponents, fun hspelling => ?_⟩
  have hfound : found = found' := by
    refine eq_of_components_eq hcomponents fun a ha b hb hab => congrArg Path.mk ?_
    refine hspelling a b (exists_argument h ha)
      ((listed_congr hsame).mpr (exists_argument h' hb)) ?_
    show Path.compareComponents a.components b.components = .eq
    rw [hab]
    exact @Std.ReflCmp.compare_self _ Path.compareComponents _ b.components
  refine ⟨congrArg _ hfound, ?_⟩
  rintro linter rfl highestOnly
  exact Report.ofPaths_congr (h.trans (hfound ▸ h'.symm))

/-- The directory and the file in it, in the other order and with the file named twice. -/
theorem collectFiles_canonical_directory :
    collectFiles (oneFile threeLines) ["rs"] [⟨"./a.rs"⟩, ⟨"."⟩, ⟨"./a.rs"⟩] = .ok [⟨"./a.rs"⟩] ∧
    ∀ linter : Linter, linter.extensions = ["rs"] → ∀ highestOnly,
      Report.ofPaths linter (oneFile threeLines) highestOnly [⟨"."⟩, ⟨"./a.rs"⟩] =
        Report.ofPaths linter (oneFile threeLines) highestOnly [⟨"./a.rs"⟩, ⟨"."⟩, ⟨"./a.rs"⟩] := by
  have hsame : ∀ path : Path, path ∈ [⟨"."⟩, ⟨"./a.rs"⟩] ↔
      path ∈ [⟨"./a.rs"⟩, ⟨"."⟩, ⟨"./a.rs"⟩] := by
    intro path
    simp only [List.mem_cons, List.not_mem_nil, or_false]
    tauto
  obtain ⟨hiff, hcanonical⟩ :=
    collectFiles_canonical (oneFile threeLines) ["rs"] _ _ hsame
  obtain ⟨found', hfound'⟩ := hiff.mp ⟨_, collectFiles_oneFile⟩
  obtain ⟨-, -, -, hspelling⟩ := hcanonical _ _ collectFiles_oneFile hfound'
  have hlisted : ∀ path, Listed (oneFile threeLines) ["rs"] [⟨"."⟩, ⟨"./a.rs"⟩] path →
      path = ⟨"./a.rs"⟩ :=
    fun path ⟨argument, hargument, listed, hlisted, hpath⟩ =>
      eq_of_filesAt_oneFile hargument hlisted hpath
  obtain ⟨hfound, hreport⟩ := hspelling fun a b ha hb _ => by rw [hlisted a ha, hlisted b hb]
  refine ⟨?_, hreport⟩
  rw [hfound', List.map_injective_iff.mpr (fun a b => congrArg Path.mk) hfound]

end ClosureLint
