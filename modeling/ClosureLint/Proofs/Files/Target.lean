import ClosureLint.Proofs.Files.Collected
import ClosureLint.Proofs.Files.Components
import Mathlib

/-! Where paths lead. The target of a path is found by following its components from the working
directory, and it is where the file system takes the path to. Paths with one anchor and one target
have the same components. What a walk finds has the anchor of the argument that it began with, and
its target is a file. -/

namespace ClosureLint

namespace Component

def isName : Component → Bool
  | .name _ => true
  | _ => false

/-- Where a component leads from a location. -/
def follow (location : Location) : Component → Location
  | .root => []
  | .current => location
  | .parent => location.dropLast
  | .name s => location ++ [s]

end Component

namespace Path

variable {path : Path} {start : Location}

/-- Where a path leads from a location. -/
def target (start : Location) (path : Path) : Location :=
  path.components.foldl Component.follow start

/-- The components of a path up to the names at its end. -/
def anchor (path : Path) : List Component := path.components.rdropWhile Component.isName

def names (path : Path) : List Component := path.components.rtakeWhile Component.isName

theorem anchor_append_names (path : Path) : path.anchor ++ path.names = path.components :=
  List.rdropWhile_append_rtakeWhile

theorem target_join {name : String} (h : IsName name) (hpath : path.spelling ≠ "") :
    (path.join name).target start = path.target start ++ [name] := by
  rw [target, components_join h hpath, List.foldl_append]
  rfl

theorem anchor_join {name : String} (h : IsName name) (hpath : path.spelling ≠ "") :
    (path.join name).anchor = path.anchor := by
  rw [anchor, components_join h hpath]
  exact List.rdropWhile_concat_pos _ _ _ rfl

theorem exists_names (path : Path) : ∃ names : List String, path.names = names.map .name := by
  have hnames : ∀ c ∈ path.names, c.isName = true := fun c => List.mem_rtakeWhile_imp
  generalize path.names = components at hnames
  induction components with
  | nil => exact ⟨[], rfl⟩
  | cons c components ih =>
    obtain ⟨hc, hrest⟩ := List.forall_mem_cons.mp hnames
    obtain ⟨names, rfl⟩ := ih hrest
    cases c with
    | name s => exact ⟨s :: names, rfl⟩
    | root | current | parent => cases hc

theorem foldl_follow_name (names : List String) (start : Location) :
    (names.map Component.name).foldl Component.follow start = start ++ names := by
  induction names generalizing start with
  | nil => simp
  | cons s names ih => simp [ih, Component.follow]

/-- A path is known by its anchor and its target. -/
theorem components_eq_of_target {p q : Path} (hanchor : p.anchor = q.anchor)
    (htarget : p.target start = q.target start) : p.components = q.components := by
  obtain ⟨names, hp⟩ := p.exists_names
  obtain ⟨names', hq⟩ := q.exists_names
  rw [target, target, ← p.anchor_append_names, ← q.anchor_append_names, hanchor,
    List.foldl_append, List.foldl_append, hp, hq, foldl_follow_name, foldl_follow_name,
    List.append_cancel_left_eq] at htarget
  rw [← p.anchor_append_names, ← q.anchor_append_names, hanchor, hp, hq, htarget]

theorem isAbsolute_iff {first : String} {rest : List String}
    (h : path.spelling.splitOn "/" = first :: rest) (hpath : path.spelling ≠ "") :
    path.isAbsolute = true ↔ first = "" := by
  rw [isAbsolute, String.startsWith_string_iff]
  rw [splitOn_slash] at h
  cases htext : path.spelling.toList with
  | nil => exact absurd (String.toList_eq_nil_iff.mp htext) hpath
  | cons c text =>
    rw [htext, List.splitOn_cons_eq_if_modifyHead] at h
    by_cases hc : c = '/'
    · rw [if_pos (by simpa using hc)] at h
      simp [hc, ← (List.cons.inj h).1]
    · obtain ⟨front, rest', hrest⟩ := List.exists_cons_of_ne_nil (List.splitOn_ne_nil '/' text)
      rw [if_neg (by simpa using hc), hrest, List.modifyHead_cons] at h
      simp [Ne.symm hc, ← (List.cons.inj h).1]

/-- Every stretch leads on from where the path begins. -/
theorem target_eq (path : Path) (start : Location) : path.target start =
    path.inner.foldl Component.follow (if path.isAbsolute then [] else start) := by
  by_cases hpath : path.spelling = ""
  · obtain rfl : path = ⟨""⟩ := congrArg Path.mk hpath
    simp [target, inner, components, splitOn_slash, isAbsolute, Component.ofInner?]
  have hparts := splitOn_ne hpath
  have habsolute := fun first rest => @isAbsolute_iff path first rest
  rw [target, components_eq, inner]
  cases hsplit : path.spelling.splitOn "/" with
  | nil => simp [splitOn_slash, List.splitOn_ne_nil] at hsplit
  | cons first rest =>
    rw [ofStretches, List.foldl_append, List.filterMap_cons, opening]
    have hnone : Component.ofInner? "" = none := rfl
    have hcurrent : Component.ofInner? "." = none := rfl
    by_cases hfirst : first = ""
    · -- A path that begins with a slash has a further stretch, and starts at the root.
      have hrest : rest ≠ [] := fun hrest => hparts (by rw [hsplit, hfirst, hrest])
      simp [hfirst, hrest, hnone, (habsolute _ _ hsplit hpath).mpr hfirst, Component.follow]
    · have hrelative := mt (habsolute _ _ hsplit hpath).mp hfirst
      rw [if_neg hfirst, if_neg hrelative]
      by_cases hdot : first = "."
      · simp [hdot, hcurrent, Component.follow]
      · rw [if_neg hdot]
        cases Component.ofInner? first <;> rfl

end Path

namespace FileSystem

variable {files : FileSystem} {path : Path} {location : Location}

theorem step_eq_ok {root : Node} {part : String} {next : Location}
    (h : step root location part = .ok next) :
    next = (Component.ofInner? part).toList.foldl Component.follow location := by
  unfold step at h
  split at h
  · unfold Component.ofInner?
    split at h
    next hcurrent => rw [if_pos hcurrent]; exact (Except.ok.inj h).symm
    next hcurrent =>
      rw [if_neg hcurrent]
      split at h
      next hparent => rw [if_pos hparent]; exact (Except.ok.inj h).symm
      next hparent =>
        rw [if_neg hparent]
        split at h
        · cases h
        · split at h
          · exact (Except.ok.inj h).symm
          · cases h
  · cases h
  · cases h

theorem foldlM_step {root : Node} {parts : List String} {next : Location}
    (h : parts.foldlM (step root) location = .ok next) :
    next = (parts.filterMap Component.ofInner?).foldl Component.follow location := by
  induction parts generalizing location with
  | nil => exact (Except.ok.inj h).symm
  | cons part parts ih =>
    rw [List.foldlM_cons, bind_eq_ok_iff] at h
    obtain ⟨middle, hstep, hrest⟩ := h
    rw [ih hrest, step_eq_ok hstep, List.filterMap_cons]
    cases Component.ofInner? part <;> rfl

/-- The file system takes a path to its target. -/
theorem target_of_resolve (h : files.resolve path = .ok location) :
    path.spelling ≠ "" ∧ path.target files.workingDirectory = location := by
  unfold resolve at h
  split at h
  · cases h
  · split at h
    · cases h
    next hpath =>
      split at h
      · cases h
      · exact ⟨hpath, by rw [foldlM_step h, Path.target_eq, Path.inner]⟩

theorem at?_target {node : Node} (h : files.node path = .ok node) :
    files.root.at? (path.target files.workingDirectory) = some node := by
  obtain ⟨location, hresolve, hnode⟩ := node_eq_ok_iff.mp h
  rwa [(target_of_resolve hresolve).2]

end FileSystem

/-! ### Walks -/

/-- Every directory has distinct names in it, which are as names are to be. -/
def FileSystem.Proper (files : FileSystem) : Prop :=
  ∀ location entries, files.root.at? location = some (.directory entries) →
    (entries.map Prod.fst).Nodup ∧ ∀ entry ∈ entries, IsName entry.1

theorem Node.at?_append (node : Node) (location rest : Location) :
    node.at? (location ++ rest) = (node.at? location).bind (·.at? rest) := by
  induction location generalizing node with
  | nil => simp [Node.at?]
  | cons name location ih =>
    cases node with
    | file content => rfl
    | directory entries =>
      rw [List.cons_append, Node.at?, Node.at?]
      cases entries.lookup name with
      | none => rfl
      | some node => exact ih node

theorem lookup_eq_some_of_mem {entries : List (String × Node)}
    (h : (entries.map Prod.fst).Nodup) {entry : String × Node} (hentry : entry ∈ entries) :
    entries.lookup entry.1 = some entry.2 := by
  obtain ⟨before, behind, rfl⟩ := List.append_of_mem hentry
  refine List.lookup_eq_some_iff.mpr ⟨before, behind, rfl, fun other hother => ?_⟩
  rw [List.map_append, List.map_cons, List.nodup_middle, List.nodup_cons] at h
  refine bne_iff_ne.mpr fun hsame => h.1 ?_
  rw [hsame]
  exact List.mem_append_left _ (List.mem_map_of_mem hother)

theorem Node.at?_entry {root : Node} {location : Location} {entries : List (String × Node)}
    (h : root.at? location = some (.directory entries)) (hnodup : (entries.map Prod.fst).Nodup)
    {entry : String × Node} (hentry : entry ∈ entries) :
    root.at? (location ++ [entry.1]) = some entry.2 := by
  rw [Node.at?_append, h, Option.bind_some, Node.at?, lookup_eq_some_of_mem hnodup hentry]
  simp [Node.at?]

/-- A path has the anchor of an argument, and leads to a file. -/
structure FileSystem.Comes (files : FileSystem) (argument path : Path) : Prop where
  anchor : path.anchor = argument.anchor
  isFile : ∃ content,
    files.root.at? (path.target files.workingDirectory) = some (.file content)

section Walk

variable {files : FileSystem}

-- The recursion is that of the walk. Each step down adds a name to the path and to the location, so
-- the path still leads to where the walk is, and its anchor stays.
mutual

theorem comes_walkNode (hproper : files.Proper) {layers : List IgnoreLayer} {location : Location}
    {path : Path} : (node : Node) → files.root.at? location = some node → path.spelling ≠ "" →
      path.target files.workingDirectory = location →
        ∀ p ∈ walkNode files layers location path node, files.Comes path p
  | .file content, hnode, _, htarget => by
    intro p hp
    rw [walkNode] at hp
    obtain rfl := List.mem_singleton.mp hp
    exact ⟨rfl, content, htarget ▸ hnode⟩
  | .directory entries, hnode, hpath, htarget => by
    rw [walkNode]
    obtain ⟨hnodup, hnames⟩ := hproper _ _ hnode
    exact comes_walkEntries hproper entries
      (fun entry hentry => ⟨Node.at?_entry hnode hnodup hentry, hnames entry hentry⟩) hpath htarget

theorem comes_walkEntries (hproper : files.Proper) {layers : List IgnoreLayer}
    {location : Location} {path : Path} : (entries : List (String × Node)) →
      (∀ entry ∈ entries, files.root.at? (location ++ [entry.1]) = some entry.2 ∧
        IsName entry.1) → path.spelling ≠ "" → path.target files.workingDirectory = location →
          ∀ p ∈ walkEntries files layers location path entries, files.Comes path p
  | [], _, _, _ => by
    intro p hp
    rw [walkEntries] at hp
    cases hp
  | entry :: rest, hentries, hpath, htarget => by
    intro p hp
    rw [walkEntries] at hp
    obtain ⟨hentry, hrest⟩ := List.forall_mem_cons.mp hentries
    rcases List.mem_append.mp hp with hp | hp
    · exact comes_walkEntry hproper entry hentry.1 hentry.2 hpath htarget p hp
    · exact comes_walkEntries hproper rest hrest hpath htarget p hp

theorem comes_walkEntry (hproper : files.Proper) {layers : List IgnoreLayer} {location : Location}
    {path : Path} : (entry : String × Node) →
      files.root.at? (location ++ [entry.1]) = some entry.2 → IsName entry.1 →
        path.spelling ≠ "" → path.target files.workingDirectory = location →
          ∀ p ∈ walkEntry files layers location path entry, files.Comes path p
  | (name, node), hnode, hname, hpath, htarget => by
    intro p hp
    rw [walkEntry] at hp
    split at hp
    · cases hp
    · have hjoin : (path.join name).target files.workingDirectory = location ++ [name] := by
        rw [Path.target_join hname hpath, htarget]
      have h := comes_walkNode hproper node hnode (Path.spelling_join_ne hname) hjoin p hp
      exact ⟨h.anchor.trans (Path.anchor_join hname hpath), h.isFile⟩

end

/-- What an argument stands for comes from it. -/
theorem comes_filesAt (hproper : files.Proper) {extensions : List String} {argument path : Path}
    {listed : List Path} (h : filesAt files extensions argument = .ok listed)
    (hpath : path ∈ listed) : files.Comes argument path := by
  rcases filesAt_cases h with ⟨content, hnode, rfl⟩ | ⟨location, entries, hresolve, hnode, rfl⟩
  · obtain rfl := List.mem_singleton.mp hpath
    exact ⟨rfl, content, FileSystem.at?_target hnode⟩
  · obtain ⟨hspelling, htarget⟩ := FileSystem.target_of_resolve hresolve
    have hlocation := FileSystem.at?_target hnode
    rw [htarget] at hlocation
    exact comes_walkNode hproper _ hlocation hspelling htarget path (List.mem_filter.mp hpath).1

end Walk

end ClosureLint
