import ClosureLint.Source
import ClosureLint.Severity

/-! Closures as a front end finds them, rules, and what rules report. -/

namespace ClosureLint

/-- A closure expression: where it begins and the extent of its body. -/
structure Closure where
  offset : Nat
  body : ByteSpan
  deriving DecidableEq, Repr

/-- A finding of a rule about the construct at `offset`. -/
structure Violation where
  rule : String
  severity : Severity
  offset : Nat
  reason : String
  deriving DecidableEq, Repr

inductive RuleKind where
  /-- Sizes and complexity. -/
  | metrics
  deriving DecidableEq, Repr

def RuleKind.name : RuleKind → String
  | .metrics => "metrics"

structure RuleDescription where
  /-- The name that configurations and reports use. -/
  identifier : String
  /-- The name that readers see. -/
  name : String
  description : String
  kind : RuleKind
  /-- The rule is outside the recommended set. -/
  optIn : Bool
  deriving DecidableEq, Repr

/-- A rule looks at one closure of a file at a time. -/
structure Rule where
  description : RuleDescription
  /-- The findings about one closure; what cannot be measured yields none. -/
  validate : SourceText → Closure → List Violation

end ClosureLint
