import ClosureLint.Violation
import ClosureLint.Files.Path

/-! Findings with their printed positions, and the report over all files. -/

namespace ClosureLint

/-- A finding in a file. -/
structure Finding where
  path : String
  position : Position
  violation : Violation
  deriving DecidableEq, Repr

namespace Finding

def locate (path : String) (text : Text) (violation : Violation) : Finding :=
  ⟨path, text.position violation.offset, violation⟩

/-- The line that readers see: `path:line:column: severity: name Violation: reason (rule)`. -/
def render (ruleName : String) (finding : Finding) : String :=
  let v := finding.violation
  s!"{finding.path}:{finding.position.line}:{finding.position.column}: {v.severity.name}: " ++
    s!"{ruleName} Violation: {v.reason} ({v.rule})"

/-- The order of a report: by the spelling of the path, then by offset. -/
def le (a b : Finding) : Bool :=
  match compare a.path b.path with
  | .lt => true
  | .gt => false
  | .eq => a.violation.offset ≤ b.violation.offset

end Finding

/-- The list with a violation taken in: the first one at each offset holds its place, and gives it
up to a graver one. -/
def keepGraver (violation : Violation) : List Violation → List Violation
  | [] => [violation]
  | kept :: rest =>
    if kept.offset = violation.offset then
      (if kept.severity.rank < violation.severity.rank then violation else kept) :: rest
    else kept :: keepGraver violation rest

/-- The gravest violation at each offset, the first one among equals, in the order in which the
offsets first occur. -/
def keepHighest (violations : List Violation) : List Violation :=
  violations.foldl (fun kept violation => keepGraver violation kept) []

structure Report where
  /-- The number of files that were looked at. -/
  files : Nat
  findings : List Finding
  deriving DecidableEq, Repr

namespace Report

def count (report : Report) (severity : Severity) : Nat :=
  report.findings.countP fun finding => finding.violation.severity = severity

/-- 2 if there is an error; 1 if there is a warning and warnings are to fail; 0 otherwise. -/
def exitCode (report : Report) (strict : Bool) : Nat :=
  if 0 < report.count .error then 2
  else if strict && 0 < report.count .warning then 1
  else 0

/-- The report on files whose findings are given file by file. -/
def ofFiles (perFile : List (List Finding)) : Report :=
  ⟨perFile.length, perFile.flatten.mergeSort Finding.le⟩

end Report

end ClosureLint
