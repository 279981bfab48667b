import ClosureLint.Settings
import ClosureLint.Toml.Document

/-! The configuration file. Its table `rule` holds the settings of each rule; the top level says
how findings are reported. Each of the two readers ignores the keys of the other. -/

namespace ClosureLint

structure Config where
  rules : List (String × RuleSettings)
  deriving DecidableEq, Repr

/-- Why there is no rule configuration. -/
inductive ConfigError where
  /-- The file cannot be read. -/
  | unreadable (cause : String)
  /-- The text is not TOML, or a value has the wrong type. -/
  | malformed
  /-- The settings of a rule contradict themselves. -/
  | refused (rule : String) (conflict : RuleSettings.Conflict)
  deriving DecidableEq, Repr

/-- What a user is told; the details of malformed text are left out. -/
def ConfigError.message : ConfigError → String
  | .unreadable cause => "config read error: " ++ cause
  | .malformed => "config parse error:"
  | .refused rule conflict => s!"config validation error: rule.{rule}: {conflict.message}"

namespace RuleSettings

/-- The settings in the entries of a table; other keys are ignored. -/
def ofEntries? (entries : Toml.Entries) : Option RuleSettings := do
  let enabled ← entries.optional? "enabled" Toml.Value.boolean?
  let warning ← entries.optional? "warning" Toml.Value.integer?
  let error ← entries.optional? "error" Toml.Value.integer?
  let levels ← entries.optional? "levels" Toml.Value.integers?
  guard (entries.restPlain ["enabled", "warning", "error", "levels"])
  some ⟨enabled, warning, error, levels⟩

/-- The settings that a value stands for: a table, or an array that begins with the four settings in
order. A date or time counts as a table that sets nothing. -/
def ofValue? : Toml.Value → Option RuleSettings
  | .table entries => ofEntries? entries
  | .moment => some empty
  | .array (enabled :: warning :: error :: levels :: _) => do
    some ⟨some (← enabled.boolean?), some (← warning.integer?), some (← error.integer?),
      some (← levels.integers?)⟩
  | _ => none

end RuleSettings

namespace Config

/-- The rules in the entries of a document, not yet checked for conflicts. -/
def ofEntries? (entries : Toml.Entries) : Option Config := do
  guard (entries.restPlain ["rule"])
  match entries.get? "rule" with
  | none => some ⟨[]⟩
  | some (.table rules) =>
    let rules ← rules.mapM fun (name, value) => (RuleSettings.ofValue? value).map (name, ·)
    some ⟨rules⟩
  | some _ => none

/-- The first conflict in the settings of a rule. -/
def conflict? (config : Config) : Option (String × RuleSettings.Conflict) :=
  config.rules.findSome? fun (name, settings) => settings.conflict?.map (name, ·)

def ofToml (text : Text) : Except ConfigError Config :=
  match (Toml.parse? text).bind ofEntries? with
  | none => .error .malformed
  | some config =>
    match config.conflict? with
    | some (name, conflict) => .error (.refused name conflict)
    | none => .ok config

def settings? (config : Config) (rule : String) : Option RuleSettings := config.rules.lookup rule

/-- A rule runs unless its settings switch it off. -/
def isEnabled (config : Config) (rule : String) : Bool :=
  (config.settings? rule).all fun settings => settings.enabled ≠ some false

end Config

inductive OutputFormat where
  | human
  | json
  deriving DecidableEq, Repr

namespace OutputFormat

def name : OutputFormat → String
  | .human => "human"
  | .json => "json"

def ofName? : String → Option OutputFormat
  | "human" => some .human
  | "json" => some .json
  | _ => none

/-- The format that a value stands for: its name, alone or as the only key of a table, with
nothing under it. -/
def ofValue? : Toml.Value → Option OutputFormat
  | .text name => ofName? name
  | .table [(name, .table [])] => ofName? name
  | .table [(name, .array [])] => ofName? name
  | _ => none

end OutputFormat

/-- What the top level of the configuration file says. -/
structure ReportSettings where
  format : Option OutputFormat
  strict : Option Bool
  deriving DecidableEq, Repr

namespace ReportSettings

/-- The settings where there is no file. -/
def default : ReportSettings := ⟨some .human, some false⟩

def ofEntries? (entries : Toml.Entries) : Option ReportSettings := do
  let format ← entries.optional? "format" OutputFormat.ofValue?
  let strict ← entries.optional? "strict" Toml.Value.boolean?
  guard (entries.restPlain ["format", "strict"])
  some ⟨format, strict⟩

def ofToml? (text : Text) : Option ReportSettings := (Toml.parse? text).bind ofEntries?

end ReportSettings

end ClosureLint
