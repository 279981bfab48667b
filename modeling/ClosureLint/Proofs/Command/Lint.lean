import ClosureLint.Proofs.Files.Collected
import ClosureLint.Proofs.Files.Components
import ClosureLint.Proofs.Json.Reading
import ClosureLint.Proofs.Report.Flags

/-! What a run of `lint` prints in JSON. The output is an array of all findings if a file was looked
at, also if there are no findings; without any file there is no output at all. -/

namespace ClosureLint

/-- JSON output is one array with a line end behind it. -/
theorem exists_jsonOutput_eq (items : List Json) :
    ∃ text, jsonOutput items = text ++ ['\n'] ∧ Json.ofText? text = some (.array items) :=
  ⟨_, rfl, Json.ofText?_render _⟩

theorem Report.findings_of_files {linter : Linter} {files : FileSystem} {highestOnly : Bool}
    {paths : List Path} {report : Report}
    (h : ofPaths linter files highestOnly paths = .ok report) (hfiles : report.files = 0) :
    report.findings = [] := by
  obtain ⟨found, -, -, rfl⟩ := ofPaths_eq_ok_iff.mp h
  obtain rfl : found = [] := by simpa [ofFiles] using hfiles
  simp [ofFiles]

/-- The settings, the rules and the report that a run of `lint` comes to. -/
structure LintRun (files : FileSystem) (arguments : LintArguments) where
  settings : ReportSettings
  config : Option Config
  report : Report
  settings_eq : ReportSettings.load files arguments.config = .ok settings
  config_eq : Config.load files arguments.config = .ok config
  report_eq : Report.ofPaths (Linter.ofConfig config) files arguments.highestOnly
    arguments.paths = .ok report

namespace LintRun

variable {files : FileSystem} {arguments : LintArguments}

/-- The format of the report: the arguments may ask for JSON, and otherwise the file decides. -/
def format (run : LintRun files arguments) : OutputFormat :=
  if arguments.json then .json else run.settings.format.getD .human

/-- Whether warnings are to fail, as the arguments or the file say. -/
def strict (run : LintRun files arguments) : Bool :=
  arguments.strict || run.settings.strict.getD false

/-- There is no choice in what a run comes to. -/
instance : Subsingleton (LintRun files arguments) where
  allEq := by
    rintro ⟨settings, config, report, hsettings, hconfig, hreport⟩
      ⟨settings', config', report', hsettings', hconfig', hreport'⟩
    obtain rfl := Except.ok.inj (hsettings.symm.trans hsettings')
    obtain rfl := Except.ok.inj (hconfig.symm.trans hconfig')
    obtain rfl := Except.ok.inj (hreport.symm.trans hreport')
    rfl

/-- A run does not fail if it has a report. -/
theorem runLint_eq (run : LintRun files arguments) : Command.runLint files arguments =
    if run.report.files = 0 then ⟨0, [], [.line "No files found"], none⟩
    else
      match run.format with
      | .human => ⟨run.report.exitCode run.strict,
          textOfLines (run.report.lines (Linter.ofConfig run.config).descriptions),
          [.line run.report.summary], none⟩
      | .json => .printing (run.report.exitCode run.strict)
          (jsonOutput (run.report.findings.map Finding.toJson)) := by
  simp only [Command.runLint, run.settings_eq, run.config_eq, run.report_eq]
  rfl

theorem of_notices (h : ∀ message, .failure message ∉ (Command.runLint files arguments).notices) :
    Nonempty (LintRun files arguments) := by
  simp only [Command.runLint] at h
  split at h
  next => exact absurd (List.mem_singleton_self _) (h _)
  next settings hsettings =>
    split at h
    next => exact absurd (List.mem_singleton_self _) (h _)
    next config hconfig =>
      split at h
      next => exact absurd (List.mem_singleton_self _) (h _)
      next report hreport => exact ⟨⟨settings, config, report, hsettings, hconfig, hreport⟩⟩

/-- The exit code is that of the report, also where no file was looked at. -/
theorem code_runLint (run : LintRun files arguments) :
    (Command.runLint files arguments).code = run.report.exitCode run.strict := by
  rw [run.runLint_eq]
  split
  next hfiles =>
    have hcount : ∀ severity, run.report.count severity = 0 := by
      simp [Report.count, Report.findings_of_files run.report_eq hfiles]
    simp [Report.exitCode, hcount]
  next => cases run.format <;> rfl

theorem output_eq_of_files (run : LintRun files arguments) (hfiles : run.report.files ≠ 0)
    (hformat : run.format = .json) : (Command.runLint files arguments).output =
      jsonOutput (run.report.findings.map Finding.toJson) := by
  rw [run.runLint_eq, if_neg hfiles, hformat]
  rfl

end LintRun

/-- A run of `lint` that does not fail has the exit code of its report. If the report is to be in
JSON, the output is one array with all findings in their order and a newline, if and only if a file
was looked at; otherwise there is no output, but a notice, and no finding. -/
theorem run_lint_json (files : FileSystem) (arguments : List String) (a : LintArguments)
    (ha : Command.ofArguments arguments = .ok (.lint a))
    (hcompletes : ∀ message, .failure message ∉ (Command.run files arguments).notices) :
    ∃ run : LintRun files a,
      (Command.run files arguments).code = run.report.exitCode run.strict ∧
      (run.format = .json →
        (run.report.files ≠ 0 ↔ ∃ text, (Command.run files arguments).output = text ++ ['\n'] ∧
          Json.ofText? text = some (.array (run.report.findings.map Finding.toJson))) ∧
        (run.report.files = 0 → (Command.run files arguments).output = [] ∧
          (Command.run files arguments).notices = [.line "No files found"] ∧
            run.report.findings = [])) := by
  have hrun : Command.run files arguments = Command.runLint files a := by rw [Command.run, ha]
  rw [hrun] at hcompletes ⊢
  obtain ⟨run⟩ := LintRun.of_notices hcompletes
  refine ⟨run, run.code_runLint, fun hformat => ?_⟩
  have hnone : run.report.files = 0 → Command.runLint files a =
      ⟨0, [], [.line "No files found"], none⟩ := by
    intro hfiles
    rw [run.runLint_eq, if_pos hfiles]
  refine ⟨⟨fun hfiles => ?_, fun ⟨text, houtput, _⟩ hfiles => ?_⟩, fun hfiles => ?_⟩
  · rw [run.output_eq_of_files hfiles hformat]
    exact exists_jsonOutput_eq _
  · rw [hnone hfiles] at houtput
    simp at houtput
  · rw [hnone hfiles]
    exact ⟨rfl, rfl, Report.findings_of_files run.report_eq hfiles⟩

/-- A configuration that asks for JSON and has warnings fail. -/
def jsonConfig : Text :=
  "format = \"json\"\nstrict = true\n[rule.closure_body_length]\nlevels = [0]\n".toList

def jsonSettings : Config := ⟨[(BodyLength.identifier, ⟨none, none, none, some [0]⟩)]⟩

theorem ofToml_jsonConfig :
    ReportSettings.ofToml? jsonConfig = some ⟨some .json, some true⟩ ∧
      Config.ofToml jsonConfig = .ok jsonSettings := by
  unfold jsonConfig
  rewrite [String.toList_ofList]
  decide +kernel

def jsonDirectory : FileSystem :=
  ⟨.directory [("a.rs", .file (.text threeLines)), (ConfigFile.name, .file (.text jsonConfig))], []⟩

theorem node_jsonConfig : jsonDirectory.node ConfigFile.path = .ok (.file (.text jsonConfig)) := by
  refine FileSystem.node_eq_ok_iff.mpr ⟨[ConfigFile.name], ?_, rfl⟩
  simp only [FileSystem.resolve, splitOn_slash]
  decide +kernel

theorem node_threeLines : jsonDirectory.node ⟨"a.rs"⟩ = .ok (.file (.text threeLines)) := by
  refine FileSystem.node_eq_ok_iff.mpr ⟨["a.rs"], ?_, rfl⟩
  simp only [FileSystem.resolve, splitOn_slash]
  decide +kernel

theorem readText_jsonConfig : jsonDirectory.readText ConfigFile.path = .ok jsonConfig := by
  rw [FileSystem.readText, FileSystem.read, node_jsonConfig]
  rfl

theorem read_threeLines : jsonDirectory.read ⟨"a.rs"⟩ = .ok (.text threeLines) := by
  rw [FileSystem.read, node_threeLines]
  rfl

/-- The run in this directory has one warning. -/
def LintRun.ofJsonDirectory : LintRun jsonDirectory ⟨[⟨"a.rs"⟩], none, false, false, false⟩ where
  settings := ⟨some .json, some true⟩
  config := some jsonSettings
  report := ⟨1, [⟨"a.rs", ⟨1, 10⟩, ⟨BodyLength.identifier, .warning, 9, BodyLength.reason 0 3⟩⟩]⟩
  settings_eq := by
    simp [ReportSettings.load, FileSystem.exists?, node_jsonConfig, Except.isOk, Except.toBool,
      readText_jsonConfig, ofToml_jsonConfig.1]
  config_eq := by
    simp [Config.load, Config.read, FileSystem.exists?, node_jsonConfig, Except.isOk,
      Except.toBool, Except.map, readText_jsonConfig, ofToml_jsonConfig.2]
  report_eq := by
    refine Report.ofPaths_eq_ok_iff.mpr
      ⟨[⟨"a.rs"⟩], ?_, by simpa using ⟨_, read_threeLines⟩, ?_⟩
    · exact collectFiles_files (by simpa using ⟨_, node_threeLines⟩) (List.pairwise_singleton _ _)
    · have hlint : (bodyLengthLinter ⟨0, none⟩).lint ⟨"a.rs"⟩ threeLines =
          [⟨BodyLength.identifier, .warning, 9, BodyLength.reason 0 3⟩] :=
        lint_threeLines _ isRustPath_oneFile
      have hposition : threeLines.position 9 = ⟨1, 10⟩ := by decide +kernel
      rw [List.map_singleton, ← Linter.findingsIn_eq read_threeLines]
      change _ = Report.ofFiles [((bodyLengthLinter ⟨0, none⟩).lint ⟨"a.rs"⟩ threeLines).map
        (Finding.locate "a.rs" threeLines)]
      rw [hlint]
      simp [Report.ofFiles, Finding.locate, hposition]

theorem run_lint_json_directory :
    (Command.run jsonDirectory ["lint", "a.rs"]).code = 1 ∧
    ∃ text, (Command.run jsonDirectory ["lint", "a.rs"]).output = text ++ ['\n'] ∧
      Json.ofText? text = some (.array [Finding.toJson
        ⟨"a.rs", ⟨1, 10⟩, ⟨BodyLength.identifier, .warning, 9, BodyLength.reason 0 3⟩⟩]) := by
  have harguments : Command.ofArguments ["lint", "a.rs"] =
      .ok (.lint ⟨[⟨"a.rs"⟩], none, false, false, false⟩) := by decide +kernel
  have hcompletes : ∀ message, .failure message ∉
      (Command.run jsonDirectory ["lint", "a.rs"]).notices := by
    rw [Command.run, harguments]
    simp only [LintRun.ofJsonDirectory.runLint_eq]
    exact fun message => List.not_mem_nil
  obtain ⟨run, hcode, hjson⟩ := run_lint_json _ _ _ harguments hcompletes
  obtain rfl : run = LintRun.ofJsonDirectory := Subsingleton.elim _ _
  exact ⟨hcode, (hjson rfl).1.mp (by decide)⟩

end ClosureLint
