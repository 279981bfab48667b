import ClosureLint.BodyLength
import ClosureLint.Config
import ClosureLint.Rust.FrontEnd

/-! The linter that a configuration asks for, and the table of all rules under it. -/

namespace ClosureLint

/-- Whether a rule runs; without a configuration every rule does. -/
def ruleRuns (config : Option Config) (rule : String) : Bool :=
  config.all fun config => config.isEnabled rule

def bodyLengthLevels (config : Option Config) : Levels :=
  match config.bind fun config => config.settings? BodyLength.identifier with
  | some settings => BodyLength.levelsOf settings
  | none => BodyLength.defaultLevels

/-- Every front end, and each rule that runs with its settings. -/
def Linter.ofConfig (config : Option Config) : Linter :=
  let linter := Linter.empty.addFrontEnd Rust.frontEnd
  if ruleRuns config BodyLength.identifier then
    linter.addRule (BodyLength.rule (bodyLengthLevels config))
  else linter

structure RuleRow where
  description : RuleDescription
  enabled : Bool
  thresholds : List Threshold
  deriving DecidableEq, Repr

/-- The table of rules, with those that do not run. It is drawn up from the configuration alone. -/
def ruleRows (config : Option Config) : List RuleRow :=
  let settings := config.bind fun config => config.settings? BodyLength.identifier
  let levels := (settings.map BodyLength.levelsOf).getD BodyLength.defaultLevels
  [⟨BodyLength.description, config.all fun config => config.isEnabled BodyLength.identifier,
    levels.thresholds⟩]

end ClosureLint
