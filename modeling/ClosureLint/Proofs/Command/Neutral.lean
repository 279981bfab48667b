import ClosureLint.Proofs.Command.Effects
import ClosureLint.Proofs.Files.Unseen
import ClosureLint.Proofs.Report.Flags

/-! The configuration that `init` writes says what holds without one. So behind a run of `init` the
other commands do what they did before, except on paths that come by the new file. -/

namespace ClosureLint

/-! ### What the template says -/

namespace ConfigFile

def templateConfig : Config := ⟨[(BodyLength.identifier, ⟨none, some 20, some 100, none⟩)]⟩

theorem ofToml_template :
    ReportSettings.ofToml? template = some ⟨none, none⟩ ∧
      Config.ofToml template = .ok templateConfig := by
  -- Literals become lists of characters first, since their bytes take long to decode.
  simp only [template, templateLines, List.flatMap_cons, List.flatMap_nil]
  repeat rewrite [String.toList_ofList]
  simp only [List.cons_append, List.nil_append]
  decide +kernel

theorem linter_templateConfig : Linter.ofConfig (some templateConfig) = Linter.ofConfig none := rfl

theorem ruleRows_templateConfig : ruleRows (some templateConfig) = ruleRows none := by
  cbv

theorem isName_name : IsName name := ⟨by decide, by decide, by decide, by decide⟩

theorem name_not_mem_ignoreNames : name ∉ ignoreNames := by decide

theorem nameHasExtension_name :
    nameHasExtension (Linter.ofConfig none).extensions name = false := by
  have hname : Path.extensionOf? name = some "toml" := by cbv
  have hextensions : (Linter.ofConfig none).extensions = ["rs"] := by cbv
  rw [nameHasExtension, hextensions, hname]
  cbv

end ConfigFile

/-! ### Reading the configuration -/

namespace FileSystem

/-- The working directory gets a configuration, the template. -/
abbrev Initialized (files files' : FileSystem) : Prop :=
  Adds files files' (.text ConfigFile.template) files.workingDirectory ConfigFile.name

namespace Initialized

variable {files files' : FileSystem}

theorem kind?_path (h : Initialized files files') :
    files'.kind? ConfigFile.path = some (.file (.text ConfigFile.template)) ∧
      files.kind? ConfigFile.path = none := by
  obtain ⟨entries, hdirectory⟩ := h.room.isDirectory
  have hkind : files.root.kindAt? files.workingDirectory = some .directory := by
    rw [Node.kindAt?, hdirectory]
    rfl
  have hkind' := (h.kindAt?_eq h.outside).trans hkind
  have hleave : ∀ hasEntry, leave hasEntry files.workingDirectory ConfigFile.name =
      if hasEntry then .ok (files.workingDirectory ++ [ConfigFile.name]) else .error .missing := by
    intro hasEntry
    rw [leave, if_neg (by decide), if_neg (by decide), if_neg (by decide)]
  rw [kind?, kind?, resolve_path, resolve_path, h.workingDirectory, step_eq_leave, step_eq_leave,
    hkind, hkind']
  simp [h.kindAt?_file, hleave, Except.toOption]

/-- What the new file says; its text is left open, so that nothing computes with it. -/
theorem exists_text (h : Initialized files files') : ∃ text,
    files'.readText ConfigFile.path = .ok text ∧
      ReportSettings.ofToml? text = some ⟨none, none⟩ ∧
      Config.ofToml text = .ok ConfigFile.templateConfig := by
  refine ⟨_, ?_, ConfigFile.ofToml_template⟩
  rw [readText, read_eq_ok_iff.mpr h.kind?_path.1]
  rfl

theorem reportSettings (h : Initialized files files') :
    ReportSettings.load files' none = .ok ⟨none, none⟩ ∧
      ReportSettings.load files none = .ok .default := by
  obtain ⟨text, hread, hsettings, -⟩ := h.exists_text
  simp [ReportSettings.load, exists?_eq, h.kind?_path, hread, hsettings]

theorem config (h : Initialized files files') :
    Config.load files' none = .ok (some ConfigFile.templateConfig) ∧
      Config.load files none = .ok none := by
  obtain ⟨text, hread, -, hconfig⟩ := h.exists_text
  simp [Config.load, Config.read, exists?_eq, h.kind?_path, hread, hconfig, Except.map]

end Initialized

end FileSystem

/-! ### Commands -/

namespace Command

/-- The command has no configuration of its own, and its paths do not come by a location. -/
def PassesBy (files : FileSystem) (location : Location) : Command → Prop
  | .lint arguments => arguments.config = none ∧
      ∀ path ∈ arguments.paths, ¬ files.ComesBy path location
  | .rules config _ => config = none
  | .init _ _ => False

variable {files files' : FileSystem}

theorem showRules_eq (h : FileSystem.Initialized files files') (json : Bool) :
    showRules files' none json = showRules files none json := by
  rw [showRules, showRules, h.config.1, h.config.2]
  simp only [ConfigFile.ruleRows_templateConfig]

theorem runLint_eq (h : FileSystem.Initialized files files') {arguments : LintArguments}
    (hconfig : arguments.config = none) (hpaths : ∀ path ∈ arguments.paths,
      ¬ files'.ComesBy path (files.workingDirectory ++ [ConfigFile.name])) :
    runLint files' arguments = runLint files arguments := by
  rw [runLint, runLint, hconfig, h.reportSettings.1, h.reportSettings.2, h.config.1, h.config.2]
  simp only [ConfigFile.linter_templateConfig, h.ofPaths_eq ConfigFile.isName_name
    ConfigFile.name_not_mem_ignoreNames ConfigFile.nameHasExtension_name hpaths]
  rfl

theorem initialized (hnames : ∀ name ∈ files.workingDirectory, IsName name)
    (hnew : files.root.at? (files.workingDirectory ++ [ConfigFile.name]) = none)
    {arguments : List String} {force : Bool} (hinit : ofArguments arguments = .ok (.init ⟨"."⟩ force))
    (hcode : (run files arguments).code = 0) :
    files.Initialized
      ⟨(run files arguments).treeAfter files.root, files.workingDirectory⟩ := by
  have hrun : run files arguments = writeConfig files ⟨"."⟩ force := by rw [run, hinit]
  rw [hrun] at hcode ⊢
  rcases writeConfig_cases files ⟨"."⟩ force with ⟨hone, -⟩ | ⟨directory, htarget, -, hwritten⟩
  · rw [hone] at hcode
    cases hcode
  · obtain rfl : directory = files.workingDirectory := by
      have hcomponents : (Path.mk ".").components = [.current] := by
        simp only [Path.components, splitOn_slash]
        cbv
      rw [← (FileSystem.target_of_resolve htarget.resolve).2, target_absolutePath hnames,
        Path.target, hcomponents]
      rfl
    exact ⟨⟨htarget.writable.isDirectory, hnew⟩, by rw [Outcome.treeAfter, hwritten], rfl,
      by simp⟩

/-- Behind a run of `init` in a working directory without a configuration, other commands without a
configuration of their own come to what they come to without that run: they have the same exit code,
output and notices. This holds if no path leads to the new file or runs on behind it. -/
theorem run_init_neutral (files : FileSystem)
    (hnames : ∀ name ∈ files.workingDirectory, IsName name)
    (hnew : files.root.at? (files.workingDirectory ++ [ConfigFile.name]) = none)
    (initArguments : List String) (force : Bool)
    (hinit : ofArguments initArguments = .ok (.init ⟨"."⟩ force))
    (hcode : (run files initArguments).code = 0) (arguments : List String)
    (hpasses : ∀ command, ofArguments arguments = .ok command → command.PassesBy
      ⟨(run files initArguments).treeAfter files.root, files.workingDirectory⟩
      (files.workingDirectory ++ [ConfigFile.name])) :
    run ⟨(run files initArguments).treeAfter files.root, files.workingDirectory⟩ arguments =
      run files arguments := by
  have h := initialized hnames hnew hinit hcode
  generalize FileSystem.mk ((run files initArguments).treeAfter files.root)
    files.workingDirectory = files' at h hpasses ⊢
  rw [run, run]
  cases hcommand : ofArguments arguments with
  | error stop => cases stop <;> rfl
  | ok command =>
    have hpasses := hpasses command hcommand
    cases command with
    | lint arguments => exact runLint_eq h hpasses.1 hpasses.2
    | rules config json =>
      obtain rfl : config = none := hpasses
      exact showRules_eq h json
    | init path force => exact hpasses.elim

theorem initialized_root {entries : List (String × Node)}
    (h : entries.lookup ConfigFile.name = none) :
    FileSystem.Initialized ⟨.directory entries, []⟩
      ⟨(run ⟨.directory entries, []⟩ ["init"]).treeAfter (.directory entries), []⟩ :=
  initialized (by simp) ((target_init h).1.isNew rfl)
    ofArguments_init (target_init h).2

/-- The directory of a Rust file is linted as before. -/
theorem run_init_neutral_oneFile :
    run ⟨(run (oneFile threeLines) ["init"]).treeAfter (oneFile threeLines).root, []⟩
      ["lint", "."] = run (oneFile threeLines) ["lint", "."] := by
  have hlookup : [("a.rs", Node.file (.text threeLines))].lookup ConfigFile.name = none := by
    decide
  have h := initialized_root hlookup
  refine run_init_neutral (oneFile threeLines) (by simp [oneFile]) h.room.isNew ["init"] false
    ofArguments_init (target_init hlookup).2 _ fun command hcommand => ?_
  obtain rfl : command = .lint ⟨[⟨"."⟩], none, false, false, false⟩ :=
    Except.ok.inj (hcommand.symm.trans (by decide +kernel))
  refine ⟨rfl, fun path hpath => h.not_comesBy ?_⟩
  have hparts : ("." : String).splitOn "/" = ["."] := by
    simp only [splitOn_slash]
    cbv
  simp [List.mem_singleton.mp hpath, hparts, ConfigFile.name]

theorem runLint_of_resolve {settings : ReportSettings} {config : Option Config}
    (hsettings : ReportSettings.load files none = .ok settings)
    (hconfig : Config.load files none = .ok config) {path : Path} {error : FileError}
    (hresolve : files.resolve path = .error error) (json strict highestOnly : Bool) :
    runLint files ⟨[path], none, json, strict, highestOnly⟩ = .failing error.message := by
  have hcollect : ∀ extensions, collectFiles files extensions [path] = .error (.system error) := by
    intro extensions
    simp [collectFiles, filesAt, hresolve, bind, Except.bind]
  simp only [runLint, hsettings, hconfig, Report.ofPaths, hcollect]
  rfl

/-- A path that runs on behind the new file leads nowhere with it and without it, but for another
reason. -/
theorem run_init_behind :
    (run ⟨.directory [], []⟩ ["init"]).code = 0 ∧
    ofArguments ["lint", ".brevity.toml/x"] =
      .ok (.lint ⟨[⟨".brevity.toml/x"⟩], none, false, false, false⟩) ∧
    FileSystem.resolve ⟨(run ⟨.directory [], []⟩ ["init"]).treeAfter (.directory []), []⟩
      ⟨".brevity.toml/x"⟩ ≠ .ok [".brevity.toml"] ∧
    run ⟨.directory [], []⟩ ["lint", ".brevity.toml/x"] =
      .failing "No such file or directory (os error 2)" ∧
    run ⟨(run ⟨.directory [], []⟩ ["init"]).treeAfter (.directory []), []⟩
      ["lint", ".brevity.toml/x"] = .failing "Not a directory (os error 20)" := by
  have h := @initialized_root [] rfl
  have harguments : ofArguments ["lint", ".brevity.toml/x"] =
      .ok (.lint ⟨[⟨".brevity.toml/x"⟩], none, false, false, false⟩) := by decide +kernel
  have hbefore : FileSystem.resolve ⟨.directory [], []⟩ ⟨".brevity.toml/x"⟩ = .error .missing := by
    simp only [FileSystem.resolve, splitOn_slash]
    decide +kernel
  have hafter : FileSystem.resolve
      ⟨(run ⟨.directory [], []⟩ ["init"]).treeAfter (.directory []), []⟩ ⟨".brevity.toml/x"⟩ =
        .error .notDirectory := by
    have hroot : (run ⟨.directory [], []⟩ ["init"]).treeAfter (.directory []) =
        .write (.text ConfigFile.template) [ConfigFile.name] (.directory []) := h.root
    rw [hroot]
    simp only [FileSystem.resolve, splitOn_slash]
    decide +kernel
  refine ⟨(target_init rfl).2, harguments, by simp [hafter], ?_, ?_⟩
  · rw [run, harguments]
    exact runLint_of_resolve h.reportSettings.2 h.config.2 hbefore _ _ _
  · rw [run, harguments]
    exact runLint_of_resolve h.reportSettings.1 h.config.1 hafter _ _ _

end Command

end ClosureLint
