import ClosureLint.Violation

/-! A rule without limits, as a sample of what a rule has to provide: it reports the number of code
lines of every closure. No configuration loads it. -/

namespace ClosureLint.Counting

def description : RuleDescription where
  identifier := "counting"
  name := "Counting"
  description := "Reports every closure"
  kind := .metrics
  optIn := false

/-- A warning for every closure whose body can be measured, with its size for a reason. -/
def rule : Rule where
  description := description
  validate file closure :=
    match file.lineRange? closure.body with
    | some range =>
      [⟨description.identifier, .warning, closure.offset, toString (file.effectiveLines range)⟩]
    | none => []

end ClosureLint.Counting
