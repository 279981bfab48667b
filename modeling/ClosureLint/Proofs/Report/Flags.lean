import ClosureLint.Proofs.Files.Order
import ClosureLint.Proofs.Report.ExitCode
import ClosureLint.Proofs.Report.Findings
import ClosureLint.Proofs.Report.Highest
import ClosureLint.Proofs.Rules
import ClosureLint.Proofs.Source.Measure
import Mathlib

/-! The flags of a report and its outcome. Keeping the gravest finding at each place leaves one
finding of the greatest severity wherever there are findings, so the exit code stays the same; and
it stays the same, or becomes 1, where warnings are to fail. -/

namespace ClosureLint

def Finding.place (f : Finding) : String × Nat := (f.path, f.violation.offset)

/-- Of a list of findings, one of the gravest at each place is kept, and no other one. -/
structure HighestOf (full kept : List Finding) : Prop where
  once : (kept.map Finding.place).Nodup
  subset : kept ⊆ full
  gravest : ∀ f ∈ kept, ∀ g ∈ full, g.place = f.place →
    g.violation.severity.rank ≤ f.violation.severity.rank
  covers : ∀ g ∈ full, ∃ f ∈ kept, f.place = g.place

namespace HighestOf

theorem nil : HighestOf [] [] := ⟨.nil, List.Subset.refl _, nofun, nofun⟩

theorem perm {full kept full' kept' : List Finding} (h : HighestOf full kept)
    (hfull : full'.Perm full) (hkept : kept'.Perm kept) : HighestOf full' kept' where
  once := (hkept.map _).nodup_iff.mpr h.once
  subset f hf := hfull.mem_iff.mpr (h.subset (hkept.mem_iff.mp hf))
  gravest f hf g hg := h.gravest f (hkept.mem_iff.mp hf) g (hfull.mem_iff.mp hg)
  covers g hg := by
    obtain ⟨f, hf, hplace⟩ := h.covers g (hfull.mem_iff.mp hg)
    exact ⟨f, hkept.mem_iff.mpr hf, hplace⟩

theorem ofViolations (violations : List Violation) (path : String) (text : Text) :
    HighestOf (violations.map (Finding.locate path text))
      ((keepHighest violations).map (Finding.locate path text)) := by
  have h := keptOf_keepHighest violations
  refine ⟨?_, List.map_subset _ h.subset, ?_, ?_⟩
  · have hplaces : ((keepHighest violations).map (Finding.locate path text)).map Finding.place =
        ((keepHighest violations).map Violation.offset).map (Prod.mk path) := by
      simp [Finding.place, Finding.locate]
    rw [hplaces]
    exact h.nodup.map fun _ _ he => (Prod.mk.inj he).2
  · intro f hf g hg hplace
    obtain ⟨w, hw, rfl⟩ := List.mem_map.mp hf
    obtain ⟨v, hv, rfl⟩ := List.mem_map.mp hg
    exact h.rank_le hw hv (Prod.mk.inj hplace).2
  · intro g hg
    obtain ⟨v, hv, rfl⟩ := List.mem_map.mp hg
    obtain ⟨w, hw, hoffset, -⟩ := h.covers v hv
    exact ⟨_, List.mem_map_of_mem hw, congrArg (Prod.mk path) hoffset⟩

/-- Findings at different places do not bear on each other. -/
theorem append {full kept full' kept' : List Finding} (h : HighestOf full kept)
    (h' : HighestOf full' kept') (hapart : ∀ f ∈ full, ∀ g ∈ full', f.place ≠ g.place) :
    HighestOf (full ++ full') (kept ++ kept') where
  once := by
    rw [List.map_append]
    refine List.nodup_append.mpr ⟨h.once, h'.once, fun p hp q hq he => ?_⟩
    obtain ⟨f, hf, rfl⟩ := List.mem_map.mp hp
    obtain ⟨g, hg, rfl⟩ := List.mem_map.mp hq
    exact hapart f (h.subset hf) g (h'.subset hg) he
  subset f hf := List.mem_append.mpr ((List.mem_append.mp hf).imp (h.subset ·) (h'.subset ·))
  gravest f hf g hg hplace := by
    rcases List.mem_append.mp hf with hf | hf
    · rcases List.mem_append.mp hg with hg | hg
      · exact h.gravest f hf g hg hplace
      · exact absurd hplace.symm (hapart f (h.subset hf) g hg)
    · rcases List.mem_append.mp hg with hg | hg
      · exact absurd hplace (hapart g hg f (h'.subset hf))
      · exact h'.gravest f hf g hg hplace
  covers g hg := by
    rcases List.mem_append.mp hg with hg | hg
    · exact (h.covers g hg).imp fun f hf => ⟨List.mem_append_left _ hf.1, hf.2⟩
    · exact (h'.covers g hg).imp fun f hf => ⟨List.mem_append_right _ hf.1, hf.2⟩

theorem flatten {found : List Path} {full kept : Path → List Finding}
    (hpath : ∀ path, ∀ f ∈ full path, f.path = path.spelling)
    (hfound : (found.map Path.spelling).Nodup)
    (h : ∀ path, HighestOf (full path) (kept path)) :
    HighestOf (found.map full).flatten (found.map kept).flatten := by
  induction found with
  | nil => exact nil
  | cons path found ih =>
    obtain ⟨hnew, hfound⟩ := List.nodup_cons.mp hfound
    refine (h path).append (ih hfound) fun f hf g hg hplace => hnew ?_
    obtain ⟨_, hfindings, hg⟩ := List.mem_flatten.mp hg
    obtain ⟨other, hother, rfl⟩ := List.mem_map.mp hfindings
    have hspelling : path.spelling = other.spelling :=
      (hpath path f hf).symm.trans ((Prod.mk.inj hplace).1.trans (hpath other g hg))
    rw [hspelling]
    exact List.mem_map_of_mem hother

end HighestOf

variable {linter : Linter} {files : FileSystem}

theorem highestOf_findingsAt (path : Path) :
    HighestOf (linter.findingsAt files false path) (linter.findingsAt files true path) := by
  rw [Linter.findingsAt, Linter.findingsAt]
  cases files.readText path with
  | error error => exact HighestOf.nil
  | ok text => exact HighestOf.ofViolations (linter.lint path text) path.spelling text

/-- The report with the gravest findings keeps one of the gravest findings at each place of the
report with all of them. -/
theorem highestOf_ofFiles {found : List Path} (hfound : (found.map Path.spelling).Nodup) :
    HighestOf (Report.ofFiles (found.map (linter.findingsAt files false))).findings
      (Report.ofFiles (found.map (linter.findingsAt files true))).findings := by
  exact (HighestOf.flatten (fun _ _ => Linter.path_of_mem_findingsAt) hfound
    highestOf_findingsAt).perm (List.mergeSort_perm _ _) (List.mergeSort_perm _ _)

/-- Which findings are kept does not change the exit code, as long as the gravest ones are. -/
theorem HighestOf.exitCode_eq {full kept : Report} (h : HighestOf full.findings kept.findings)
    (strict : Bool) : kept.exitCode strict = full.exitCode strict := by
  refine Nat.le_antisymm (Report.exitCode_le_exitCode fun f hf => ?_)
    (Report.exitCode_le_exitCode fun g hg => ?_)
  · exact ⟨f, h.subset hf, Nat.le_refl _⟩
  · obtain ⟨f, hf, hplace⟩ := h.covers g hg
    exact ⟨f, hf, h.gravest f hf g hg hplace.symm⟩

/-- The flags of a report do not change its outcome. There is a report on all findings if and only if
there is one on the gravest ones; both have the same exit code, whether warnings are to fail or not;
and the latter has one of the gravest findings at each place of the former, and nothing else. The
exit code for two lists of findings together is the greater one of theirs. Where warnings are to
fail, a run prints and writes what it does otherwise, and its exit code is the same or goes from 0
to 1. -/
theorem ofPaths_flags (linter : Linter) (files : FileSystem) (paths : List Path)
    (highestOnly : Bool) (report : Report)
    (h : Report.ofPaths linter files highestOnly paths = .ok report) :
    (∃ full kept, Report.ofPaths linter files false paths = .ok full ∧
      Report.ofPaths linter files true paths = .ok kept ∧
      (∀ strict, kept.exitCode strict = full.exitCode strict) ∧
      HighestOf full.findings kept.findings) ∧
    (∀ (a b : Report) n strict, Report.exitCode ⟨n, a.findings ++ b.findings⟩ strict =
      max (a.exitCode strict) (b.exitCode strict)) ∧
    (report.exitCode true = report.exitCode false ∨
      report.exitCode false = 0 ∧ report.exitCode true = 1) ∧
    ∀ arguments : LintArguments, ∃ code code' output notices written,
      Command.runLint files { arguments with strict := false } =
        ⟨code, output, notices, written⟩ ∧
      Command.runLint files { arguments with strict := true } =
        ⟨code', output, notices, written⟩ ∧
      (code' = code ∨ code = 0 ∧ code' = 1) := by
  obtain ⟨found, hfound, hread, -⟩ := Report.ofPaths_eq_ok_iff.mp h
  have hhighest := @highestOf_ofFiles linter files found (nodup_collectFiles hfound)
  refine ⟨⟨_, _, Report.ofPaths_eq_ok_iff.mpr ⟨found, hfound, hread, rfl⟩,
    Report.ofPaths_eq_ok_iff.mpr ⟨found, hfound, hread, rfl⟩, hhighest.exitCode_eq, hhighest⟩,
    fun a b n strict => Report.exitCode_append a b n, report.exitCode_strict, runLint_strict files⟩

def oneFile (text : Text) : FileSystem := ⟨.directory [("a.rs", .file (.text text))], []⟩

theorem ofPaths_oneFile (hextensions : linter.extensions = ["rs"]) (text : Text)
    (highestOnly : Bool) : Report.ofPaths linter (oneFile text) highestOnly [⟨"a.rs"⟩] =
      .ok (.ofFiles [(if highestOnly then keepHighest (linter.lint ⟨"a.rs"⟩ text)
        else linter.lint ⟨"a.rs"⟩ text).map (Finding.locate "a.rs" text)]) := by
  have hread : (oneFile text).read ⟨"a.rs"⟩ = .ok (.text text) := by cbv
  refine Report.ofPaths_eq_ok_iff.mpr ⟨[⟨"a.rs"⟩], ?_, ?_, ?_⟩
  · rw [hextensions]
    cbv
  · intro path hpath
    rw [List.mem_singleton.mp hpath]
    exact ⟨_, hread⟩
  · rw [List.map_singleton, ← Linter.findingsIn_eq hread]
    rfl

def threeLines : Text := "fn f() \x7b || \x7b\n1\n\x7d; \x7d".toList

theorem isRustPath_oneFile : isRustPath ⟨"a.rs"⟩ = true := by cbv

theorem lint_threeLines (levels : Levels) {path : Path} (hpath : isRustPath path = true) :
    (bodyLengthLinter levels).lint path threeLines =
      BodyLength.findingsAt levels.thresholds 9 3 := by
  have hclosures : Rust.closures threeLines = .ok [⟨9, ⟨12, 5⟩⟩] := by decide +kernel
  have hrange : (SourceText.ofText threeLines .rust).lineRange? ⟨12, 5⟩ = some ⟨0, 2, by decide⟩ := by
    decide +kernel
  have hcount : (SourceText.ofText threeLines .rust).effectiveLines ⟨0, 2, by decide⟩ = 3 := by
    decide +kernel
  have hevaluate := @BodyLength.evaluate_eq _ ⟨9, ⟨12, 5⟩⟩ _ levels.thresholds hrange
  rw [hcount] at hevaluate
  rw [lint_bodyLength, hpath, hclosures]
  exact (List.append_nil _).trans hevaluate

/-- All findings in it are at one place, and so are in order. -/
theorem ofPaths_threeLines (levels : Levels) :
    Report.ofPaths (bodyLengthLinter levels) (oneFile threeLines) false [⟨"a.rs"⟩] =
      .ok ⟨1, (BodyLength.findingsAt levels.thresholds 9 3).map
        (Finding.locate "a.rs" threeLines)⟩ := by
  have hsorted : ((BodyLength.findingsAt levels.thresholds 9 3).map
      (Finding.locate "a.rs" threeLines)).Pairwise fun a b => a.le b = true := by
    rw [List.pairwise_map]
    refine List.pairwise_of_forall_mem_list fun v hv w hw => Finding.le_iff.mpr (.inr ⟨?_, ?_⟩)
    · exact Std.ReflCmp.compare_self
    · exact Nat.le_of_eq ((BodyLength.offset_of_mem_findingsAt hv).trans
        (BodyLength.offset_of_mem_findingsAt hw).symm)
  rw [ofPaths_oneFile (by cbv), if_neg (by decide), lint_threeLines _ isRustPath_oneFile,
    Report.ofFiles, List.flatten_singleton, List.mergeSort_of_pairwise hsorted]
  rfl

def threeLinesReport : Report where
  files := 1
  findings := [⟨"a.rs", ⟨1, 10⟩, ⟨BodyLength.identifier, .warning, 9, BodyLength.reason 0 3⟩⟩,
    ⟨"a.rs", ⟨1, 10⟩, ⟨BodyLength.identifier, .error, 9, BodyLength.reason 0 3⟩⟩]

/-- A warning and an error are at one place. -/
theorem ofPaths_flags_threeLines :
    Report.ofPaths (bodyLengthLinter ⟨0, some 1⟩) (oneFile threeLines) false [⟨"a.rs"⟩] =
      .ok threeLinesReport ∧ threeLinesReport.exitCode false = 2 ∧
    ∃ kept, Report.ofPaths (bodyLengthLinter ⟨0, some 1⟩) (oneFile threeLines) true
      [⟨"a.rs"⟩] = .ok kept ∧ (∀ strict, kept.exitCode strict = threeLinesReport.exitCode strict) ∧
        HighestOf threeLinesReport.findings kept.findings := by
  have h : Report.ofPaths (bodyLengthLinter ⟨0, some 1⟩) (oneFile threeLines) false
      [⟨"a.rs"⟩] = .ok threeLinesReport := by
    rw [ofPaths_threeLines]
    exact congrArg Except.ok (by decide +kernel)
  obtain ⟨⟨full, kept, hfull, hkept, hexit, hhighest⟩, -⟩ := ofPaths_flags _ _ _ _ _ h
  obtain rfl : full = threeLinesReport := Except.ok.inj (hfull.symm.trans h)
  exact ⟨h, rfl, kept, hkept, hexit, hhighest⟩

end ClosureLint
