import ClosureLint.Command.Help
import ClosureLint.ConfigFile
import ClosureLint.Json
import ClosureLint.Project
import ClosureLint.Rules

/-! What the commands do. A run looks at the file tree and the arguments, and comes out with an exit
code, what is printed, and the file that is written, if any. -/

namespace ClosureLint

/-- Something for the user beside the output proper. -/
inductive Notice where
  | line (text : String)
  /-- The command has failed. -/
  | failure (message : String)
  /-- The arguments are out of place. -/
  | usage
  /-- There are no arguments, so the help on the program is shown. -/
  | help
  deriving DecidableEq, Repr

/-- What comes of a run. -/
structure Outcome where
  code : Nat
  output : Text
  notices : List Notice
  /-- Where a file is written, with its text. -/
  written : Option (Location × Text)

namespace Outcome

def printing (code : Nat) (output : Text) : Outcome := ⟨code, output, [], none⟩

def failing (message : String) : Outcome := ⟨1, [], [.failure message], none⟩

def treeAfter (outcome : Outcome) (root : Node) : Node :=
  match outcome.written with
  | some (location, text) => root.write (.text text) location
  | none => root

end Outcome

def textOfLines (lines : List String) : Text := lines.flatMap fun line => line.toList ++ ['\n']

/-! ### Output -/

def Finding.toJson (finding : Finding) : Json :=
  .object [("path", .string finding.path), ("line", .number finding.position.line),
    ("col", .number finding.position.column), ("rule", .string finding.violation.rule),
    ("severity", .string finding.violation.severity.name),
    ("offset", .number finding.violation.offset), ("reason", .string finding.violation.reason)]

def Threshold.toJson (threshold : Threshold) : Json :=
  .object [("severity", .string threshold.severity.name), ("max_lines", .number threshold.maxLines)]

def RuleRow.toJson (row : RuleRow) : Json :=
  .object [("identifier", .string row.description.identifier),
    ("name", .string row.description.name), ("description", .string row.description.description),
    ("kind", .string row.description.kind.name), ("opt_in", .boolean row.description.optIn),
    ("enabled", .boolean row.enabled), ("thresholds", .array (row.thresholds.map Threshold.toJson))]

def nameWidth : Nat := 24

def RuleRow.toLines (row : RuleRow) : List String :=
  let mark := if row.enabled then "✓" else "○"
  let limits := row.thresholds.map fun threshold =>
    s!"{threshold.severity.name}={threshold.maxLines}"
  let name := String.ofList (row.description.identifier.toList.rightpad nameWidth ' ')
  [s!"  {mark} {name} " ++ "  ".intercalate limits,
    s!"      {row.description.description}"]

def jsonOutput (items : List Json) : Text := (Json.array items).render 0 ++ ['\n']

namespace Report

/-- The last line for human readers. -/
def summary (report : Report) : String :=
  s!"{report.files} files, {report.count .warning} warnings, {report.count .error} errors"

/-- The lines for human readers, with the names of rules from their descriptions. -/
def lines (report : Report) (descriptions : List RuleDescription) : List String :=
  report.findings.map fun finding =>
    let rule := finding.violation.rule
    let known := descriptions.reverse.find? fun description => description.identifier = rule
    finding.render ((known.map (·.name)).getD rule)

end Report

/-! ### The commands -/

namespace Command

/-- Lints files and directories. The options of the command line go before the settings of the
file. -/
def runLint (files : FileSystem) (arguments : LintArguments) : Outcome :=
  match ReportSettings.load files arguments.config with
  | .error error => .failing error.message
  | .ok settings =>
    let format := if arguments.json then .json else settings.format.getD .human
    let strict := arguments.strict || settings.strict.getD false
    match Config.load files arguments.config with
    | .error error => .failing error.message
    | .ok config =>
      let linter := Linter.ofConfig config
      match Report.ofPaths linter files arguments.highestOnly arguments.paths with
      | .error error => .failing error.message
      | .ok report =>
        if report.files = 0 then ⟨0, [], [.line "No files found"], none⟩
        else
          match format with
          | .human =>
            ⟨report.exitCode strict, textOfLines (report.lines linter.descriptions),
              [.line report.summary], none⟩
          | .json =>
            .printing (report.exitCode strict) (jsonOutput (report.findings.map Finding.toJson))

def showRules (files : FileSystem) (config : Option Path) (json : Bool) : Outcome :=
  match Config.load files config with
  | .error error => .failing error.message
  | .ok config =>
    let rows := ruleRows config
    if json then .printing 0 (jsonOutput (rows.map RuleRow.toJson))
    else .printing 0 (textOfLines (rows.flatMap RuleRow.toLines))

/-- A path in full, if it is relative to the working directory. -/
def absolutePath (files : FileSystem) (path : Path) : Path :=
  (IgnoreLayer.absolute files.workingDirectory).join path.spelling

/-- Writes a new configuration file into a directory. One that is there already is replaced only
with `force`. The path of the file may be too long where that of the directory is not. -/
def writeConfig (files : FileSystem) (path : Path) (force : Bool) : Outcome :=
  let target := absolutePath files path
  let file := target.join ConfigFile.name
  match files.resolve target, files.node target with
  | .ok location, .ok (.directory entries) =>
    if FileSystem.pathBound ≤ file.spelling.utf8ByteSize then
      .failing FileError.nameTooLong.message
    else
      match entries.lookup ConfigFile.name, force with
      | some _, false =>
        .failing s!"{ConfigFile.name} already exists at {file.spelling}\nUse --force to overwrite"
      | some (.directory _), true => .failing FileError.isDirectory.message
      | _, _ =>
        { code := 0
          output := textOfLines [s!"✓ Created {ConfigFile.name} at {file.spelling}"]
          notices := []
          written := some (location ++ [ConfigFile.name], ConfigFile.template) }
  | _, .ok _ => .failing s!"Target path is not a directory: {target.spelling}"
  | _, _ => .failing s!"Target directory does not exist: {target.spelling}"

def run (files : FileSystem) (arguments : List String) : Outcome :=
  match ofArguments arguments with
  | .ok (.lint arguments) => runLint files arguments
  | .ok (.rules config json) => showRules files config json
  | .ok (.init path force) => writeConfig files path force
  | .error (.help command) => .printing 0 (textOfLines (helpLines command))
  | .error .version => .printing 0 (textOfLines [versionLine])
  | .error .noCommand => ⟨2, [], [.help], none⟩
  | .error .misuse => ⟨2, [], [.usage], none⟩

end Command

end ClosureLint
