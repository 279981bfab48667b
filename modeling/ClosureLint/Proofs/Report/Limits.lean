import ClosureLint.Proofs.Report.Flags
import ClosureLint.Proofs.Rust.Places
import Mathlib

/-! Tighter limits. What is reported about a closure under some limits is reported under tighter
ones too, and in the same order: closure by closure, file by file and in the sorted report. Only the
guideline that the findings quote is another one, so nothing is lost but the wording, and the exit
code does not fall. -/

namespace ClosureLint

/-- No limit is higher than its counterpart, and there is a limit for errors if there was one. -/
structure Levels.Tightens (tight levels : Levels) : Prop where
  warning_le : tight.warning ≤ levels.warning
  error_le : ∀ limit ∈ levels.error, ∃ limit' ∈ tight.error, limit' ≤ limit

/-! ### One closure -/

def Violation.unworded (v : Violation) : Violation := { v with reason := "" }

def Finding.unworded (f : Finding) : Finding := { f with violation := f.violation.unworded }

namespace BodyLength

variable {levels tight : Levels}

theorem severities_sublist (h : tight.Tightens levels) (count : Nat) :
    ((levels.thresholds.filter fun t => t.maxLines < count).map Threshold.severity).Sublist
      ((tight.thresholds.filter fun t => t.maxLines < count).map Threshold.severity) := by
  rw [filter_thresholds, filter_thresholds]
  refine List.Sublist.append ?_ ?_
  · split
    next hlt => rw [if_pos (Nat.lt_of_le_of_lt h.warning_le hlt)]
    next => exact List.nil_sublist _
  · split
    next hlt =>
      obtain ⟨limit, hlimit, hlt⟩ := hlt
      obtain ⟨limit', hlimit', hle⟩ := h.error_le limit hlimit
      rw [if_pos ⟨limit', hlimit', Nat.lt_of_le_of_lt hle hlt⟩]
    next => exact List.nil_sublist _

/-- Up to their wording, the findings about a closure are its severities. -/
theorem unworded_findingsAt (levels : Levels) (offset count : Nat) :
    (findingsAt levels.thresholds offset count).map Violation.unworded =
      ((levels.thresholds.filter fun t => t.maxLines < count).map Threshold.severity).map
        fun severity => ⟨identifier, severity, offset, ""⟩ := by
  rw [findingsAt, guideline?_thresholds, List.map_map, List.map_map]
  rfl

theorem evaluate_sublist (h : tight.Tightens levels) (file : SourceText) (closure : Closure) :
    ((evaluate file closure levels.thresholds).map Violation.unworded).Sublist
      ((evaluate file closure tight.thresholds).map Violation.unworded) := by
  cases hrange : file.lineRange? closure.body with
  | none =>
    rw [evaluate_eq_nil _ hrange]
    exact List.nil_sublist _
  | some range =>
    rw [evaluate_eq _ hrange, evaluate_eq _ hrange, unworded_findingsAt, unworded_findingsAt]
    exact (severities_sublist h _).map _

/-- A finding about a closure quotes the limit for warnings and the number of code lines. -/
theorem reason_of_mem_evaluate {file : SourceText} {closure : Closure} {v : Violation}
    (h : v ∈ evaluate file closure levels.thresholds) : ∃ range,
      file.lineRange? closure.body = some range ∧
        v.reason = reason levels.warning (file.effectiveLines range) := by
  obtain ⟨range, hrange, h⟩ := exists_range_of_mem_evaluate h
  exact ⟨range, hrange, reason_of_mem_findingsAt h⟩

end BodyLength

/-! ### One file -/

variable {levels tight : Levels} {files : FileSystem}

theorem lint_bodyLength_sublist (h : tight.Tightens levels) (path : Path) (text : Text) :
    (((bodyLengthLinter levels).lint path text).map Violation.unworded).Sublist
      (((bodyLengthLinter tight).lint path text).map Violation.unworded) := by
  rw [lint_bodyLength, lint_bodyLength]
  split
  · rw [List.map_flatMap, List.map_flatMap]
    exact List.Sublist.flatMap_right _ fun closure _ => BodyLength.evaluate_sublist h _ closure
  · exact List.Sublist.refl _

theorem findingsAt_sublist (h : tight.Tightens levels) (path : Path) :
    (((bodyLengthLinter levels).findingsAt files false path).map Finding.unworded).Sublist
      (((bodyLengthLinter tight).findingsAt files false path).map Finding.unworded) := by
  have hlocate : ∀ (text : Text) (violations : List Violation),
      (violations.map (Finding.locate path.spelling text)).map Finding.unworded =
        (violations.map Violation.unworded).map (Finding.locate path.spelling text) := by
    intro text violations
    rw [List.map_map, List.map_map]
    rfl
  rw [Linter.findingsAt, Linter.findingsAt]
  cases files.readText path with
  | error error => exact List.Sublist.refl _
  | ok text =>
    dsimp only
    rw [hlocate, hlocate]
    exact (lint_bodyLength_sublist h path text).map _

/-- In the file at a path there is a closure at an offset whose body has so many code lines. -/
def HasBodyAt (files : FileSystem) (path : String) (offset count : Nat) : Prop :=
  ∃ text closures closure range, files.readText ⟨path⟩ = .ok text ∧
    Rust.closures text = .ok closures ∧ closure ∈ closures ∧ closure.offset = offset ∧
      (SourceText.ofText text .rust).lineRange? closure.body = some range ∧
        (SourceText.ofText text .rust).effectiveLines range = count

/-- What a finding quotes about a closure does not depend on the limits, apart from the guideline. -/
theorem reason_of_mem_lint {path : Path} {text : Text} {v w : Violation}
    (htext : files.readText path = .ok text) (hv : v ∈ (bodyLengthLinter levels).lint path text)
    (hw : w ∈ (bodyLengthLinter tight).lint path text) (hoffset : v.offset = w.offset) :
    ∃ count, HasBodyAt files path.spelling v.offset count ∧
      v.reason = BodyLength.reason levels.warning count ∧
        w.reason = BodyLength.reason tight.warning count := by
  rw [lint_bodyLength] at hv hw
  split at hv
  next hpath =>
    rw [if_pos hpath] at hw
    cases hclosures : Rust.closures text with
    | error error => simp [hclosures, Except.toOption] at hv
    | ok closures =>
      rw [hclosures] at hv hw
      obtain ⟨c, hc, hv⟩ := List.mem_flatMap.mp hv
      obtain ⟨d, hd, hw⟩ := List.mem_flatMap.mp hw
      have hplace := BodyLength.offset_of_mem_evaluate hv
      -- Two closures at one offset are the same, so both findings are about one body.
      obtain rfl : c = d := Rust.closure_eq_of_offset_eq hclosures hc hd <| by
        rw [← hplace, hoffset, BodyLength.offset_of_mem_evaluate hw]
      obtain ⟨range, hrange, hv⟩ := BodyLength.reason_of_mem_evaluate hv
      obtain ⟨range', hrange', hw⟩ := BodyLength.reason_of_mem_evaluate hw
      obtain rfl : range = range' := Option.some.inj (hrange.symm.trans hrange')
      exact ⟨_, ⟨text, closures, c, range, htext, hclosures, hc, hplace.symm, hrange, rfl⟩, hv, hw⟩
  next => cases hv

/-! ### The report -/

theorem unworded_ofFiles (found : List Path) (findings : Path → List Finding) :
    (Report.ofFiles (found.map findings)).findings.map Finding.unworded =
      (found.flatMap fun path => (findings path).map Finding.unworded).mergeSort Finding.le := by
  rw [Report.ofFiles, ← List.flatMap_def, ← List.map_flatMap]
  -- The order does not look at the wording.
  exact List.map_mergeSort fun _ _ _ _ => rfl

theorem ofFiles_sublist (h : tight.Tightens levels) (found : List Path) :
    ((Report.ofFiles (found.map ((bodyLengthLinter levels).findingsAt files false))).findings.map
      Finding.unworded).Sublist
      ((Report.ofFiles (found.map ((bodyLengthLinter tight).findingsAt files false))).findings.map
        Finding.unworded) := by
  rw [unworded_ofFiles, unworded_ofFiles]
  refine mergeSort_sublist Finding.le_trans Finding.le_total ?_
  exact List.Sublist.flatMap_right _ fun path _ => findingsAt_sublist h path

/-- Where a finding is and how grave it is. -/
def Finding.mark (f : Finding) : String × Nat × Severity :=
  (f.path, f.violation.offset, f.violation.severity)

theorem reason_of_mem_ofFiles {found : List Path} {f g : Finding}
    (hf : f ∈ (Report.ofFiles
      (found.map ((bodyLengthLinter levels).findingsAt files false))).findings)
    (hg : g ∈ (Report.ofFiles
      (found.map ((bodyLengthLinter tight).findingsAt files false))).findings)
    (hmark : f.mark = g.mark) :
    ∃ count, HasBodyAt files f.path f.violation.offset count ∧
      f.violation.reason = BodyLength.reason levels.warning count ∧
        g.violation.reason = BodyLength.reason tight.warning count := by
  obtain ⟨_, hfindings, hf⟩ := Report.mem_findings_ofFiles.mp hf
  obtain ⟨path, -, rfl⟩ := List.mem_map.mp hfindings
  obtain ⟨text, htext, v, hv, rfl⟩ := Linter.mem_findingsAt.mp hf
  obtain ⟨_, hfindings, hg⟩ := Report.mem_findings_ofFiles.mp hg
  obtain ⟨path', -, rfl⟩ := List.mem_map.mp hfindings
  obtain ⟨text', htext', w, hw, rfl⟩ := Linter.mem_findingsAt.mp hg
  -- The spelling is all there is to a path, so both findings are in one text.
  obtain rfl : path = path' := congrArg Path.mk (congrArg Prod.fst hmark)
  obtain rfl : text = text' := Except.ok.inj (htext.symm.trans htext')
  exact reason_of_mem_lint htext hv hw (congrArg (fun mark => mark.2.1) hmark)

/-- Tighter limits never hide a finding. Where there is a report under some limits, there is one
under tighter ones; the places and severities of the findings are found in it in the same order;
findings with the same place and severity both quote the number of code lines in the body there; and
the exit code is not lower, whether warnings are to fail or not. -/
theorem ofPaths_tightens (levels tight : Levels) (h : tight.Tightens levels) (files : FileSystem)
    (paths : List Path) (report : Report)
    (hreport : Report.ofPaths (bodyLengthLinter levels) files false paths = .ok report) :
    ∃ report', Report.ofPaths (bodyLengthLinter tight) files false paths = .ok report' ∧
      (report.findings.map Finding.mark).Sublist (report'.findings.map Finding.mark) ∧
      (∀ f ∈ report.findings, ∀ g ∈ report'.findings, f.mark = g.mark →
        ∃ count, HasBodyAt files f.path f.violation.offset count ∧
          f.violation.reason = BodyLength.reason levels.warning count ∧
            g.violation.reason = BodyLength.reason tight.warning count) ∧
      ∀ strict, report.exitCode strict ≤ report'.exitCode strict := by
  obtain ⟨found, hfound, hread, rfl⟩ := Report.ofPaths_eq_ok_iff.mp hreport
  have hmarks := (@ofFiles_sublist _ _ files h found).map Finding.mark
  rw [List.map_map, List.map_map, show Finding.mark ∘ Finding.unworded = Finding.mark from rfl]
    at hmarks
  refine ⟨_, Report.ofPaths_eq_ok_iff.mpr ⟨found, hfound, hread, rfl⟩, hmarks,
    fun f hf g hg => reason_of_mem_ofFiles hf hg, fun strict => ?_⟩
  refine Report.exitCode_le_exitCode fun f hf => ?_
  obtain ⟨g, hg, hmark⟩ := List.mem_map.mp (hmarks.subset (List.mem_map_of_mem hf))
  exact ⟨g, hg, Nat.le_of_eq (congrArg (fun mark => mark.2.2.rank) hmark.symm)⟩

/-- Three lines are past a limit of two, and past both of the tighter limits. -/
theorem ofPaths_tightens_threeLines : Levels.Tightens ⟨1, some 2⟩ ⟨2, none⟩ ∧
    ∃ report report',
      Report.ofPaths (bodyLengthLinter ⟨2, none⟩) (oneFile threeLines) false [⟨"a.rs"⟩] =
        .ok report ∧
      Report.ofPaths (bodyLengthLinter ⟨1, some 2⟩) (oneFile threeLines) false [⟨"a.rs"⟩] =
        .ok report' ∧
      report.findings.length = 1 ∧
      (report.findings.map Finding.mark).Sublist (report'.findings.map Finding.mark) ∧
      (∀ f ∈ report.findings, ∀ g ∈ report'.findings, f.mark = g.mark →
        ∃ count, HasBodyAt (oneFile threeLines) f.path f.violation.offset count ∧
          f.violation.reason = BodyLength.reason 2 count ∧
            g.violation.reason = BodyLength.reason 1 count) ∧
      ∀ strict, report.exitCode strict ≤ report'.exitCode strict := by
  have htight : Levels.Tightens ⟨1, some 2⟩ ⟨2, none⟩ := ⟨by decide, nofun⟩
  have hreport := ofPaths_threeLines ⟨2, none⟩
  obtain ⟨report', hreport', hrest⟩ := ofPaths_tightens _ _ htight _ _ _ hreport
  exact ⟨htight, _, report', hreport, hreport', by decide +kernel, hrest⟩

end ClosureLint
