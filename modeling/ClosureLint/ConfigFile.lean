import ClosureLint.Config
import ClosureLint.Files.Tree

/-! The configuration file in the file tree: where it is looked for, what it says there, and the
template for a new one. -/

namespace ClosureLint

namespace ConfigFile

/-- The name of the configuration file of a directory. -/
def name : String := ".brevity.toml"

def path : Path := ⟨name⟩

/-- The lines of a new configuration file. It says what holds without one. -/
def templateLines : List String :=
  ["# brevity configuration",
    "#",
    "# Output defaults, overridden by --json / --strict on the command line.",
    "# format = \"human\"   # or \"json\"",
    "# strict = false     # exit 1 on warnings too",
    "",
    "# Closures whose bodies span more effective lines (comments and blank",
    "# lines excluded) than a limit are reported at that limit's severity.",
    "[rule.closure_body_length]",
    "warning = 20",
    "error = 100",
    "",
    "# Shorthand for the two limits above (use one form, not both):",
    "# levels = [20, 100]",
    "#",
    "# Warn only, no error level:",
    "# levels = [30]",
    "#",
    "# Turn the rule off:",
    "# enabled = false"]

def template : Text := (templateLines.flatMap fun line => line.toList ++ ['\n'])

end ConfigFile

/-- Why the configuration file does not tell how findings are written. -/
inductive ReportSettingsError where
  | unreadable (path : Path)
  | malformed (path : Path)
  deriving DecidableEq, Repr

def ReportSettingsError.message : ReportSettingsError → String
  | .unreadable path => s!"failed to read {path.spelling}"
  | .malformed path => s!"failed to parse {path.spelling}"

/-- How findings are written, as the file at a path says, or the configuration file of the working
directory. Without a file the defaults hold, even if a path is given. -/
def ReportSettings.load (files : FileSystem) (given : Option Path) :
    Except ReportSettingsError ReportSettings :=
  let path := given.getD ConfigFile.path
  if files.exists? path then
    match files.readText path with
    | .error _ => .error (.unreadable path)
    | .ok text =>
      match ReportSettings.ofToml? text with
      | some settings => .ok settings
      | none => .error (.malformed path)
  else .ok .default

def Config.read (files : FileSystem) (path : Path) : Except ConfigError Config :=
  match files.readText path with
  | .error error => .error (.unreadable error.message)
  | .ok text => Config.ofToml text

/-- The settings of rules in the file at a path, which has to be there, or in the configuration file
of the working directory, if there is one. -/
def Config.load (files : FileSystem) (given : Option Path) :
    Except ConfigError (Option Config) :=
  match given with
  | some path => (Config.read files path).map some
  | none =>
    if files.exists? ConfigFile.path then (Config.read files ConfigFile.path).map some
    else .ok none

end ClosureLint
