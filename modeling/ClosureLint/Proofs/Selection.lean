import ClosureLint.Proofs.Files.Collected
import ClosureLint.Proofs.Files.Components
import ClosureLint.Proofs.Rules
import Mathlib

/-! Which files have a front end. A walk goes by the extensions of the front ends in lower case, and
the front end of a path by the lower case of its extension, so both agree where the front ends
declare their extensions in lower case. A file that is named in an argument is collected without a
look at its extension. -/

namespace ClosureLint

theorem asciiLower_asciiLower (s : String) : asciiLower (asciiLower s) = asciiLower s := by
  have hlower : Char.toLower ∘ Char.toLower = Char.toLower :=
    funext Char.toLower_toLower_eq_toLower
  rw [asciiLower, asciiLower, String.map_map, hlower]

namespace Linter

variable {linter : Linter} {path : Path}

/-- The extensions that some front end declares, as it declares them. -/
def declared (linter : Linter) : List String := linter.frontEnds.flatMap (·.extensions)

theorem extensions_eq (linter : Linter) : linter.extensions = linter.declared.map asciiLower := by
  rw [extensions, declared, List.map_flatMap]

theorem mem_of_frontEndFor? {frontEnd : FrontEnd} (h : linter.frontEndFor? path = some frontEnd) :
    frontEnd ∈ linter.frontEnds := by
  rw [frontEndFor?, Option.bind_eq_bind, Option.bind_eq_some_iff] at h
  obtain ⟨_, -, h⟩ := h
  exact List.mem_of_find?_eq_some h

/-- A path has a front end if its extension is declared in lower case. -/
theorem isSome_frontEndFor? : (linter.frontEndFor? path).isSome = true ↔
    ∃ extension, path.extension? = some extension ∧ asciiLower extension ∈ linter.declared := by
  rw [frontEndFor?]
  cases path.extension? with
  | none => simp
  | some extension => simp [declared, List.mem_flatMap]

/-- A path has one of the extensions if its extension is declared in any case. -/
theorem hasExtension_extensions : hasExtension linter.extensions path = true ↔
    ∃ extension, path.extension? = some extension ∧
      ∃ other ∈ linter.declared, asciiLower other = asciiLower extension := by
  rw [hasExtension, extensions_eq]
  cases path.extension? with
  | none => simp
  | some extension => simp

theorem frontEndFor?_congr {other : Path} (h : other.components = path.components) :
    linter.frontEndFor? other = linter.frontEndFor? path := by
  simp only [frontEndFor?, Path.extension?, Path.fileName?, h]

theorem hasExtension_of_frontEndFor? (h : (linter.frontEndFor? path).isSome = true) :
    hasExtension linter.extensions path = true := by
  obtain ⟨extension, hextension, hdeclared⟩ := isSome_frontEndFor?.mp h
  exact hasExtension_extensions.mpr ⟨extension, hextension, _, hdeclared, asciiLower_asciiLower _⟩

/-- Where each extension is also declared in lower case, the paths with one of the extensions are
those with a front end. -/
theorem hasExtension_eq (hlower : ∀ e ∈ linter.declared, asciiLower e ∈ linter.declared)
    (path : Path) : hasExtension linter.extensions path = (linter.frontEndFor? path).isSome := by
  rw [Bool.eq_iff_iff]
  refine ⟨fun h => ?_, hasExtension_of_frontEndFor?⟩
  obtain ⟨extension, hextension, other, hother, hsame⟩ := hasExtension_extensions.mp h
  exact isSome_frontEndFor?.mpr ⟨extension, hextension, hsame ▸ hlower other hother⟩

end Linter

/-- What is collected has a front end, or is a file that is named in an argument. -/
theorem frontEnd_or_named {linter : Linter}
    (hlower : ∀ e ∈ linter.declared, asciiLower e ∈ linter.declared) {files : FileSystem}
    {paths found : List Path} (h : collectFiles files linter.extensions paths = .ok found)
    {path : Path} (hpath : path ∈ found) : (linter.frontEndFor? path).isSome = true ∨
      path ∈ paths ∧ ∃ content, files.node path = .ok (.file content) := by
  obtain ⟨argument, hargument, listed, hlisted, hmem⟩ := exists_argument h hpath
  rcases filesAt_cases hlisted with ⟨content, hnode, rfl⟩ | ⟨location, entries, -, -, rfl⟩
  · obtain rfl := List.mem_singleton.mp hmem
    exact .inr ⟨hargument, content, hnode⟩
  · rw [← Linter.hasExtension_eq hlower]
    exact .inl (List.mem_filter.mp hmem).2

/-- Selecting files and selecting front ends agree. A path with a front end has one of the linter's
extensions; and where the front ends declare each of their extensions also in lower case, the paths
with one of the extensions are those with a front end, and what is collected without one is a file
that is named in an argument. A file that is named is collected in any case, in the spelling that is
listed first, and without a front end nothing is found in it. -/
theorem selection_agrees (linter : Linter) :
    (∀ path, (linter.frontEndFor? path).isSome = true →
      hasExtension linter.extensions path = true) ∧
    ((∀ e ∈ linter.declared, asciiLower e ∈ linter.declared) →
      (∀ path, hasExtension linter.extensions path = (linter.frontEndFor? path).isSome) ∧
      ∀ files paths found, collectFiles files linter.extensions paths = .ok found →
        ∀ path ∈ found, (linter.frontEndFor? path).isSome = true ∨
          path ∈ paths ∧ ∃ content, files.node path = .ok (.file content)) ∧
    ∀ files paths found, collectFiles files linter.extensions paths = .ok found →
      ∀ path ∈ paths, ∀ content, files.node path = .ok (.file content) →
        ∃ kept ∈ found, (listing files linter.extensions paths).find?
            (fun other => other.components = path.components) = some kept ∧
          ((linter.frontEndFor? path).isSome = false → ∀ text, linter.lint kept text = []) := by
  refine ⟨fun _ => Linter.hasExtension_of_frontEndFor?, fun hlower =>
    ⟨Linter.hasExtension_eq hlower, fun files paths found h path => frontEnd_or_named hlower h⟩, ?_⟩
  intro files paths found h path hpath content hnode
  obtain ⟨kept, hkept, hfirst⟩ :=
    find?_listing h hpath (filesAt_file hnode) (List.mem_singleton_self path)
  refine ⟨kept, hkept, hfirst, fun hnone text => ?_⟩
  rw [← Linter.frontEndFor?_congr (components_of_find? hfirst)] at hnone
  refine Linter.lint_eq_nil fun frontEnd hfrontEnd => ?_
  rw [hfrontEnd] at hnone
  cases hnone

def withNote : FileSystem :=
  ⟨.directory [("a.rs", .file (.text [])), ("notes.txt", .file (.text []))], []⟩

theorem node_note : withNote.node ⟨"notes.txt"⟩ = .ok (.file (.text [])) := by
  have hresolve : withNote.resolve ⟨"notes.txt"⟩ = .ok ["notes.txt"] := by
    simp only [FileSystem.resolve, splitOn_slash]
    decide +kernel
  exact FileSystem.node_eq_ok_iff.mpr ⟨_, hresolve, rfl⟩

theorem frontEndFor?_note : ((Linter.ofConfig none).frontEndFor? ⟨"notes.txt"⟩).isSome = false := by
  have hextension : (Path.mk "notes.txt").extension? = some "txt" := by
    simp only [Path.extension?, Path.fileName?, Path.components, splitOn_slash]
    decide +kernel
  rw [Bool.eq_false_iff, Ne, Linter.isSome_frontEndFor?, hextension]
  rintro ⟨_, ⟨⟩, hdeclared⟩
  exact absurd hdeclared (by decide +kernel)

/-- The directory and the note in it. -/
theorem selection_agrees_note :
    (∀ e ∈ (Linter.ofConfig none).declared, asciiLower e ∈ (Linter.ofConfig none).declared) ∧
    ∃ found, collectFiles withNote (Linter.ofConfig none).extensions [⟨"."⟩, ⟨"notes.txt"⟩] =
        .ok found ∧
      (∀ path ∈ found, ((Linter.ofConfig none).frontEndFor? path).isSome = true ∨
        path ∈ [⟨"."⟩, ⟨"notes.txt"⟩]) ∧
      ∃ kept ∈ found, (listing withNote (Linter.ofConfig none).extensions
          [⟨"."⟩, ⟨"notes.txt"⟩]).find?
          (fun other => other.components = (Path.mk "notes.txt").components) = some kept ∧
        ∀ text, (Linter.ofConfig none).lint kept text = [] := by
  have hlower : ∀ e ∈ (Linter.ofConfig none).declared,
      asciiLower e ∈ (Linter.ofConfig none).declared := by decide +kernel
  have hdirectory := @filesAt_root withNote (Linter.ofConfig none).extensions ⟨"."⟩
    [("a.rs", .file (.text [])), ("notes.txt", .file (.text []))] (by cbv) (by cbv)
  have hall : ∀ argument ∈ [⟨"."⟩, ⟨"notes.txt"⟩], ∃ listed,
      filesAt withNote (Linter.ofConfig none).extensions argument = .ok listed := by
    simpa using ⟨⟨_, hdirectory⟩, _, filesAt_file node_note⟩
  have hfound := collectFiles_eq_ok_iff.mpr ⟨hall, rfl⟩
  obtain ⟨-, hagrees, hnamed⟩ := selection_agrees (Linter.ofConfig none)
  obtain ⟨kept, hkept, hfirst, hskipped⟩ := hnamed _ _ _ hfound _ (by simp) _ node_note
  refine ⟨hlower, _, hfound, fun path hpath => ?_, kept, hkept, hfirst,
    hskipped frontEndFor?_note⟩
  exact ((hagrees hlower).2 _ _ _ hfound path hpath).imp_right And.left

/-- The front end for Rust, with its extension in upper case. -/
def upperCase : FrontEnd := { Rust.frontEnd with extensions := ["RS"] }

/-- A walk collects the files of a front end that declares its extension in upper case, though no
path has that front end; and a note that is named in an argument is collected and counted. -/
theorem selection_differs :
    hasExtension (Linter.empty.addFrontEnd upperCase).extensions ⟨"a.rs"⟩ = true ∧
    ((Linter.empty.addFrontEnd upperCase).frontEndFor? ⟨"a.rs"⟩).isSome = false ∧
    Report.ofPaths (Linter.ofConfig none) withNote false [⟨"notes.txt"⟩] = .ok ⟨1, []⟩ ∧
    ((Linter.ofConfig none).frontEndFor? ⟨"notes.txt"⟩).isSome = false := by
  have hextension : (Path.mk "a.rs").extension? = some "rs" := by
    simp only [Path.extension?, Path.fileName?, Path.components, splitOn_slash]
    decide +kernel
  refine ⟨?_, ?_, ?_, frontEndFor?_note⟩
  · rw [Linter.hasExtension_extensions, hextension]
    exact ⟨_, rfl, "RS", List.mem_singleton_self _, by cbv⟩
  · rw [Bool.eq_false_iff, Ne, Linter.isSome_frontEndFor?, hextension]
    rintro ⟨_, ⟨⟩, hdeclared⟩
    exact absurd hdeclared (by decide +kernel)
  · have hread : withNote.read ⟨"notes.txt"⟩ = .ok (.text []) := by
      rw [FileSystem.read, node_note]
      rfl
    have hnote : (Linter.ofConfig none).frontEndFor? ⟨"notes.txt"⟩ = none := by
      simpa using frontEndFor?_note
    have hfound := @collectFiles_files withNote (Linter.ofConfig none).extensions
      [⟨"notes.txt"⟩] (by simpa using ⟨_, node_note⟩) (List.pairwise_singleton ..)
    refine Report.ofPaths_eq_ok_iff.mpr ⟨_, hfound, ?_, ?_⟩
    · simpa using ⟨_, hread⟩
    · rw [List.map_singleton, ← Linter.findingsIn_eq hread]
      simp [Linter.findingsIn, Linter.lint, hnote, Report.ofFiles, Content.text?]

end ClosureLint
