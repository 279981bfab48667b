/-! How grave a finding is, and the limits at which findings of each gravity begin. -/

namespace ClosureLint

/-- An error is graver than a warning. -/
inductive Severity where
  | warning
  | error
  deriving DecidableEq, Repr

namespace Severity

/-- The order of gravity. -/
def rank : Severity → Nat
  | .warning => 0
  | .error => 1

/-- The word by which reports and settings know a severity. -/
def name : Severity → String
  | .warning => "warning"
  | .error => "error"

def ofName? : String → Option Severity
  | "warning" => some .warning
  | "error" => some .error
  | _ => none

@[simp] theorem ofName?_name (s : Severity) : ofName? s.name = some s := by
  cases s <;> rfl

end Severity

/-- A severity with the largest number of lines that it still allows. -/
structure Threshold where
  severity : Severity
  maxLines : Nat
  deriving DecidableEq, Repr

/-- A limit for warnings and, if there is one, a limit for errors. -/
structure Levels where
  warning : Nat
  error : Option Nat
  deriving DecidableEq, Repr

/-- The thresholds of a pair of limits, the warning first. -/
def Levels.thresholds (levels : Levels) : List Threshold :=
  ⟨.warning, levels.warning⟩ :: (levels.error.map (Threshold.mk .error)).toList

end ClosureLint
