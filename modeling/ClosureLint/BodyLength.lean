import ClosureLint.Settings
import ClosureLint.Violation

/-! The rule that closure bodies stay short: a body is measured in code lines, and each limit that
it goes past yields a finding. -/

namespace ClosureLint.BodyLength

/-- The name of the rule in configurations and reports. -/
def identifier : String := "closure_body_length"

def description : RuleDescription where
  identifier := identifier
  name := "Closure Body Length"
  description := "Closure bodies should not span too many lines."
  kind := .metrics
  optIn := true

def defaultLevels : Levels := ⟨20, some 100⟩

/-- The first threshold of the lowest severity. -/
def guideline? : List Threshold → Option Threshold
  | [] => none
  | t :: rest =>
    match guideline? rest with
    | some u => if u.severity.rank < t.severity.rank then some u else some t
    | none => some t

def reason (guideline count : Nat) : String :=
  s!"Closure body should span {guideline} lines or less excluding comments and " ++
    s!"whitespace: currently spans {count} lines"

/-- One finding for each threshold that the closure's body goes past, in the order given. All of
them quote the guideline, so a body past both limits reads the same at both severities. -/
def evaluate (file : SourceText) (closure : Closure) (thresholds : List Threshold) :
    List Violation :=
  match guideline? thresholds, file.lineRange? closure.body with
  | some guideline, some range =>
    thresholds.filterMap fun threshold =>
      match file.exceeds range threshold.maxLines with
      | (true, count) =>
        some ⟨identifier, threshold.severity, closure.offset, reason guideline.maxLines count⟩
      | (false, _) => none
  | _, _ => []

def levelsOf (settings : RuleSettings) : Levels := Levels.ofSettings settings defaultLevels

def rule (levels : Levels) : Rule where
  description := description
  validate file closure := evaluate file closure levels.thresholds

end ClosureLint.BodyLength
