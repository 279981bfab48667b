import ClosureLint.Proofs.BodyLength.Ascending
import ClosureLint.Proofs.Files.Components
import ClosureLint.Proofs.Report.Flags
import Mathlib

/-! The arrangement of a report. It goes by the spelling of paths and then by offset, so the
findings in one file stand together; and as no spelling comes twice among the files and the sort is
stable, they are the findings of that file, in the order in which the linter gave them at each offset.
Nothing depends on the order in which the files were looked at. -/

namespace ClosureLint

/-! ### Parts of a sorted list -/

/-- Elements that agree in a key are related if they are in the part of the list with that key. -/
theorem pairwise_of_filter {α κ : Type} [DecidableEq κ] {key : α → κ} {l : List α}
    {R : α → α → Prop} (h : ∀ k, (l.filter (key · = k)).Pairwise R) :
    l.Pairwise fun a b => key a = key b → R a b := by
  refine List.pairwise_iff_forall_sublist.mpr fun {a b} hsub hkey => ?_
  have hpart := hsub.filter (key · = key b)
  rw [List.filter_cons_of_pos (by simpa using hkey), List.filter_cons_of_pos (by simp)] at hpart
  exact List.pairwise_iff_forall_sublist.mp (h (key b)) hpart

namespace Finding

theorem le_iff_path {f g : Finding} : f.le g = true ↔
    f.path < g.path ∨ f.path = g.path ∧ f.violation.offset ≤ g.violation.offset := by
  rw [le_iff, compare_lt_iff_lt, compare_eq_iff_eq]

theorem path_le_of_le {f g : Finding} (h : f.le g = true) : f.path ≤ g.path :=
  (le_iff_path.mp h).elim le_of_lt fun h => h.1.le

/-- Findings by offset alone. -/
def offsetLe (f g : Finding) : Bool := f.violation.offset ≤ g.violation.offset

/-- In one file the order of a report is that of the offsets. -/
theorem mergeSort_le_eq {l : List Finding} {path : String} (h : ∀ f ∈ l, f.path = path) :
    l.mergeSort le = l.mergeSort offsetLe := by
  have hle : ∀ f ∈ l, ∀ g ∈ l, f.le g = (id f).offsetLe (id g) := by
    intro f hf g hg
    have hpath : f.path = g.path := (h f hf).trans (h g hg).symm
    rw [Bool.eq_iff_iff, le_iff_path, offsetLe, decide_eq_true_eq]
    simp [hpath]
  simpa using List.map_mergeSort hle

/-- Findings at one place are in the order in which they came. -/
theorem mergeSort_le_place {l : List Finding} {place : String × Nat}
    (h : ∀ f ∈ l, f.place = place) : l.mergeSort le = l := by
  refine List.mergeSort_of_pairwise (List.pairwise_of_forall_mem_list fun f hf g hg => ?_)
  obtain ⟨hpath, hoffset⟩ := Prod.mk.inj ((h f hf).trans (h g hg).symm)
  exact le_iff_path.mpr (.inr ⟨hpath, hoffset.le⟩)

/-- A list in the order of paths is known by its parts in one file each. -/
theorem eq_of_filter_path_eq {l m : List Finding} (hl : l.Pairwise fun f g => f.path ≤ g.path)
    (hm : m.Pairwise fun f g => f.path ≤ g.path)
    (h : ∀ path, l.filter (·.path = path) = m.filter (·.path = path)) : l = m := by
  have hmem : ∀ f, f ∈ l ↔ f ∈ m := by
    intro f
    simpa using congrArg (f ∈ ·) (h f.path)
  induction l generalizing m with
  | nil =>
    exact (List.eq_nil_iff_forall_not_mem.mpr fun f hf => List.not_mem_nil ((hmem f).mpr hf)).symm
  | cons f l ih =>
    cases m with
    | nil => exact absurd ((hmem f).mp (List.mem_cons_self ..)) List.not_mem_nil
    | cons g m =>
      obtain ⟨hf, hl'⟩ := List.pairwise_cons.mp hl
      obtain ⟨hg, hm'⟩ := List.pairwise_cons.mp hm
      -- Each list begins with a finding in the first file of both.
      have hfg : f.path ≤ g.path := by
        rcases List.mem_cons.mp ((hmem g).mpr (List.mem_cons_self ..)) with rfl | hmem
        · exact le_rfl
        · exact hf g hmem
      have hgf : g.path ≤ f.path := by
        rcases List.mem_cons.mp ((hmem f).mp (List.mem_cons_self ..)) with rfl | hmem
        · exact le_rfl
        · exact hg f hmem
      have hhead := h f.path
      rw [List.filter_cons_of_pos (by simp),
        List.filter_cons_of_pos (by simpa using le_antisymm hgf hfg)] at hhead
      obtain ⟨rfl, htail⟩ := List.cons.inj hhead
      have hrest : ∀ path, l.filter (·.path = path) = m.filter (·.path = path) := by
        intro path
        by_cases hpath : f.path = path
        · rwa [← hpath]
        · have := h path
          rwa [List.filter_cons_of_neg (by simpa using hpath),
            List.filter_cons_of_neg (by simpa using hpath)] at this
      rw [ih hl' hm' hrest fun c => by simpa using congrArg (c ∈ ·) (hrest c.path)]

end Finding

/-! ### Reports -/

/-- A report on some files loses, doubles and mixes nothing, where `foundIn` gives the findings in a
file. -/
structure Report.Arranges (report : Report) (foundIn : Path → List Finding) (found : List Path) :
    Prop where
  files : report.files = found.length
  total : report.findings.length = (found.map fun path => (foundIn path).length).sum
  /-- The findings go by the spelling of the path and then by offset. -/
  sorted : report.findings.Pairwise fun f g =>
    f.path < g.path ∨ f.path = g.path ∧ f.violation.offset ≤ g.violation.offset
  /-- Between two findings in a file there are only findings in that file. -/
  together : ∀ f g h, [f, g, h].Sublist report.findings → f.path = h.path → g.path = h.path
  /-- The findings in a file are its own, by offset. -/
  own : ∀ path ∈ found,
    report.findings.filter (·.path = path.spelling) = (foundIn path).mergeSort Finding.offsetLe
  /-- The findings at an offset in a file are in the order in which they came. -/
  stable : ∀ path ∈ found, ∀ offset,
    report.findings.filter (·.place = (path.spelling, offset)) =
      (foundIn path).filter (·.violation.offset = offset)
  /-- There are no findings in other files. -/
  within : ∀ f ∈ report.findings, ∃ path ∈ found, f.path = path.spelling
  /-- The files may be looked at in any order. -/
  anyOrder : ∀ found' : List Path, found'.Perm found → Report.ofFiles (found'.map foundIn) = report

namespace Report

variable {foundIn : Path → List Finding} {found : List Path}

theorem filter_path_flatten (hpath : ∀ path, ∀ f ∈ foundIn path, f.path = path.spelling)
    (found : List Path) (path : String) : (found.map foundIn).flatten.filter (·.path = path) =
      ((found.filter (·.spelling = path)).map foundIn).flatten := by
  induction found with
  | nil => rfl
  | cons first found ih =>
    rw [List.map_cons, List.flatten_cons, List.filter_append, ih]
    by_cases hfirst : first.spelling = path
    · rw [List.filter_cons_of_pos (by simpa using hfirst), List.map_cons, List.flatten_cons,
        List.filter_eq_self.mpr fun f hf => by simpa [hfirst] using hpath first f hf]
    · rw [List.filter_cons_of_neg (by simpa using hfirst), List.filter_eq_nil_iff.mpr,
        List.nil_append]
      intro f hf
      simpa [hpath first f hf] using hfirst

theorem filter_spelling (hfound : (found.map Path.spelling).Nodup) {path : Path}
    (h : path ∈ found) : found.filter (·.spelling = path.spelling) = [path] := by
  have hsame : ∀ other : Path, decide (other.spelling = path.spelling) = decide (other = path) :=
    fun other => decide_eq_decide.mpr ⟨congrArg Path.mk, congrArg Path.spelling⟩
  simp only [hsame, List.filter_eq, List.count_eq_one_of_mem hfound.of_map h]
  rfl

theorem filter_spelling_perm {found' : List Path} (hfound : (found.map Path.spelling).Nodup)
    (h : found'.Perm found) (path : String) :
    found'.filter (·.spelling = path) = found.filter (·.spelling = path) := by
  have hparts := h.filter (·.spelling = path)
  by_cases hpath : ∃ other ∈ found, other.spelling = path
  · obtain ⟨other, hother, rfl⟩ := hpath
    rw [filter_spelling hfound hother] at hparts ⊢
    exact List.perm_singleton.mp hparts
  · have hnone : found.filter (·.spelling = path) = [] :=
      List.filter_eq_nil_iff.mpr fun other hother he => hpath ⟨other, hother, by simpa using he⟩
    rw [hnone] at hparts ⊢
    exact hparts.eq_nil

theorem filter_path_ofFiles (hpath : ∀ path, ∀ f ∈ foundIn path, f.path = path.spelling)
    (found : List Path) (path : String) :
    (ofFiles (found.map foundIn)).findings.filter (·.path = path) =
      ((found.filter (·.spelling = path)).map foundIn).flatten.mergeSort Finding.le := by
  rw [ofFiles, filter_mergeSort Finding.le_trans Finding.le_total, filter_path_flatten hpath]

theorem sorted_ofFiles (perFile : List (List Finding)) :
    (ofFiles perFile).findings.Pairwise fun f g => f.le g = true :=
  List.pairwise_mergeSort Finding.le_trans Finding.le_total _

theorem filter_place_ofFiles (perFile : List (List Finding)) (place : String × Nat) :
    (ofFiles perFile).findings.filter (·.place = place) =
      perFile.flatten.filter (·.place = place) := by
  rw [ofFiles, filter_mergeSort Finding.le_trans Finding.le_total]
  exact Finding.mergeSort_le_place fun f hf => by simpa using (List.mem_filter.mp hf).2

/-- A report is arranged if no two of its files are spelled the same. -/
theorem arranges_ofFiles (hpath : ∀ path, ∀ f ∈ foundIn path, f.path = path.spelling)
    (hfound : (found.map Path.spelling).Nodup) :
    (ofFiles (found.map foundIn)).Arranges foundIn found where
  files := List.length_map ..
  total := by
    rw [ofFiles, List.length_mergeSort, List.length_flatten, List.map_map]
    rfl
  sorted := (sorted_ofFiles _).imp Finding.le_iff_path.mp
  together f g h hsub hfh := by
    have hsorted := (sorted_ofFiles _).sublist hsub
    simp only [List.pairwise_cons, List.mem_cons, forall_eq_or_imp] at hsorted
    refine le_antisymm (Finding.path_le_of_le hsorted.2.1.1) ?_
    rw [← hfh]
    exact Finding.path_le_of_le hsorted.1.1
  own path h := by
    rw [filter_path_ofFiles hpath, filter_spelling hfound h, List.map_singleton,
      List.flatten_singleton, Finding.mergeSort_le_eq (hpath path)]
  stable path h offset := by
    have hplace : ∀ f : Finding, decide (f.place = (path.spelling, offset)) =
        (decide (f.violation.offset = offset) && decide (f.path = path.spelling)) := by
      intro f
      rw [← Bool.decide_and, decide_eq_decide, Finding.place, Prod.mk.injEq, and_comm]
    rw [filter_place_ofFiles]
    simp only [hplace]
    rw [← List.filter_filter, filter_path_flatten hpath, filter_spelling hfound h,
      List.map_singleton, List.flatten_singleton]
  within f hf := by
    obtain ⟨_, hfindings, hf⟩ := mem_findings_ofFiles.mp hf
    obtain ⟨path, hmem, rfl⟩ := List.mem_map.mp hfindings
    exact ⟨path, hmem, hpath path f hf⟩
  anyOrder found' hperm := by
    have hfindings : (ofFiles (found'.map foundIn)).findings =
        (ofFiles (found.map foundIn)).findings := by
      refine Finding.eq_of_filter_path_eq ((sorted_ofFiles _).imp Finding.path_le_of_le)
        ((sorted_ofFiles _).imp Finding.path_le_of_le) fun path => ?_
      rw [filter_path_ofFiles hpath, filter_path_ofFiles hpath, filter_spelling_perm hfound hperm]
    exact congrArg₂ Report.mk (by simpa using hperm.length_eq) hfindings

/-- Where the findings in each file become graver at each offset, so do those of the report. -/
theorem Arranges.ascending {report : Report} (h : report.Arranges foundIn found)
    (hfound : ∀ path ∈ found, (foundIn path).Pairwise fun f g =>
      f.violation.offset = g.violation.offset →
        f.violation.severity.rank < g.violation.severity.rank) :
    report.findings.Pairwise fun f g =>
      f.place = g.place → f.violation.severity.rank < g.violation.severity.rank := by
  refine pairwise_of_filter fun place => ?_
  by_cases hplace : ∃ path ∈ found, path.spelling = place.1
  · obtain ⟨path, hpath, hspelling⟩ := hplace
    rw [show place = (path.spelling, place.2) from Prod.ext hspelling.symm rfl,
      h.stable path hpath]
    refine ((hfound path hpath).filter _).imp_of_mem fun hf hg hlt => hlt ?_
    have hf := of_decide_eq_true (List.mem_filter.mp hf).2
    exact hf.trans (of_decide_eq_true (List.mem_filter.mp hg).2).symm
  · have hnone : report.findings.filter (·.place = place) = [] := by
      refine List.filter_eq_nil_iff.mpr fun f hf hf' => hplace ?_
      obtain ⟨path, hpath, hspelling⟩ := h.within f hf
      exact ⟨path, hpath, hspelling.symm.trans (congrArg Prod.fst (of_decide_eq_true hf'))⟩
    rw [hnone]
    exact .nil

end Report

theorem ascending_findingsAt {linter : Linter} {files : FileSystem} {levels : Levels}
    (hrules : linter.rules = [BodyLength.rule levels])
    (hdistinct : ∀ frontEnd ∈ linter.frontEnds, frontEnd.Distinct) (highestOnly : Bool)
    (path : Path) : (linter.findingsAt files highestOnly path).Pairwise fun f g =>
      f.violation.offset = g.violation.offset →
        f.violation.severity.rank < g.violation.severity.rank := by
  rw [Linter.findingsAt]
  split
  · rw [List.pairwise_map]
    split
    · exact ascending_keepHighest _
    · exact Linter.ascending_lint hrules hdistinct path _
  · exact .nil

/-- A report loses, doubles and mixes nothing: it is arranged by the files that are collected, each
of which can be read, and by the findings in them. Where the body length rule is the only one, the
warning comes before the error at each place. -/
theorem ofPaths_arranges (linter : Linter) (files : FileSystem) (highestOnly : Bool)
    (paths : List Path) (report : Report)
    (h : Report.ofPaths linter files highestOnly paths = .ok report) :
    ∃ found, collectFiles files linter.extensions paths = .ok found ∧
      (∀ path ∈ found, ∃ content, files.read path = .ok content ∧
        linter.findingsAt files highestOnly path = linter.findingsIn highestOnly path content) ∧
      report.Arranges (linter.findingsAt files highestOnly) found ∧
      ∀ levels, linter.rules = [BodyLength.rule levels] →
        (∀ frontEnd ∈ linter.frontEnds, frontEnd.Distinct) →
          report.findings.Pairwise fun f g =>
            f.place = g.place → f.violation.severity.rank < g.violation.severity.rank := by
  obtain ⟨found, hfound, hread, rfl⟩ := Report.ofPaths_eq_ok_iff.mp h
  have harranges := Report.arranges_ofFiles
    (fun path f => @Linter.path_of_mem_findingsAt linter files highestOnly path f)
    (nodup_collectFiles hfound)
  refine ⟨found, hfound, fun path hpath => ?_, harranges, fun levels hrules hdistinct => ?_⟩
  · obtain ⟨content, hcontent⟩ := hread path hpath
    exact ⟨content, hcontent, (Linter.findingsIn_eq hcontent).symm⟩
  · exact harranges.ascending fun path _ => ascending_findingsAt hrules hdistinct highestOnly path

theorem length_findingsIn_threeLines {path : Path} (hpath : isRustPath path = true) :
    ((bodyLengthLinter ⟨0, some 1⟩).findingsIn false path (.text threeLines)).length = 2 := by
  rw [Linter.findingsIn, Content.text?]
  simp only [lint_threeLines _ hpath, Bool.false_eq_true, if_false, List.length_map]
  rfl

/-- Two directories with a Rust file in each. As paths the files are in this order, and in the other
one by their spelling. -/
def twoDirectories : FileSystem :=
  ⟨.directory [("a", .directory [("x.rs", .file (.text threeLines))]),
    ("a-b", .directory [("x.rs", .file (.text threeLines))])], []⟩

theorem node_twoDirectories : ∀ path ∈ [⟨"a/x.rs"⟩, ⟨"a-b/x.rs"⟩],
    twoDirectories.node path = .ok (.file (.text threeLines)) := by
  have hresolve : twoDirectories.resolve ⟨"a/x.rs"⟩ = .ok ["a", "x.rs"] ∧
      twoDirectories.resolve ⟨"a-b/x.rs"⟩ = .ok ["a-b", "x.rs"] := by
    simp only [FileSystem.resolve, splitOn_slash]
    decide +kernel
  simp only [List.forall_mem_cons, FileSystem.node_eq_ok_iff, hresolve]
  exact ⟨⟨_, rfl, rfl⟩, ⟨_, rfl, rfl⟩, List.forall_mem_nil _⟩

/-- A warning and an error at a place in each of two files. -/
theorem ofPaths_arranges_twoDirectories : ∃ report,
    Report.ofPaths (bodyLengthLinter ⟨0, some 1⟩) twoDirectories false
      [⟨"a/x.rs"⟩, ⟨"a-b/x.rs"⟩] = .ok report ∧
    report.files = 2 ∧ report.findings.length = 4 ∧
    report.findings.Pairwise (fun f g => f.path ≤ g.path) ∧
    report.findings.Pairwise fun f g =>
      f.place = g.place → f.violation.severity.rank < g.violation.severity.rank := by
  have hsorted : [⟨"a/x.rs"⟩, ⟨"a-b/x.rs"⟩].Pairwise fun a b => Path.compare a b = .lt := by
    simp only [Path.compare, Path.components, splitOn_slash]
    decide +kernel
  have hrust : ∀ path ∈ [⟨"a/x.rs"⟩, ⟨"a-b/x.rs"⟩], isRustPath path = true := by
    simp only [isRustPath, Path.extension?, Path.fileName?, Path.components, splitOn_slash]
    decide +kernel
  have hread : ∀ path ∈ [⟨"a/x.rs"⟩, ⟨"a-b/x.rs"⟩],
      twoDirectories.read path = .ok (.text threeLines) := by
    intro path hpath
    rw [FileSystem.read, node_twoDirectories path hpath]
    rfl
  have hfindings : ∀ path ∈ [⟨"a/x.rs"⟩, ⟨"a-b/x.rs"⟩],
      ((bodyLengthLinter ⟨0, some 1⟩).findingsAt twoDirectories false path).length = 2 := by
    intro path hpath
    rw [← Linter.findingsIn_eq (hread path hpath), length_findingsIn_threeLines (hrust path hpath)]
  have hfound := @collectFiles_files twoDirectories (bodyLengthLinter ⟨0, some 1⟩).extensions _
    (fun path hpath => ⟨_, node_twoDirectories path hpath⟩) hsorted
  obtain ⟨report, hreport⟩ : ∃ report, Report.ofPaths (bodyLengthLinter ⟨0, some 1⟩)
      twoDirectories false [⟨"a/x.rs"⟩, ⟨"a-b/x.rs"⟩] = .ok report :=
    ⟨_, Report.ofPaths_eq_ok_iff.mpr ⟨_, hfound, fun path hpath => ⟨_, hread path hpath⟩, rfl⟩⟩
  obtain ⟨found, hfound', -, harranges, hascending⟩ := ofPaths_arranges _ _ _ _ _ hreport
  obtain rfl := Except.ok.inj (hfound.symm.trans hfound')
  refine ⟨report, hreport, harranges.files, ?_, ?_, hascending _ rfl ?_⟩
  · rw [harranges.total, List.map_congr_left hfindings]
    rfl
  · exact harranges.sorted.imp fun h => h.elim le_of_lt fun h => h.1.le
  · intro frontEnd hmem
    rw [List.mem_singleton.mp hmem]
    exact Rust.distinct_frontEnd

end ClosureLint
