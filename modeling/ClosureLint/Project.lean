import ClosureLint.Files.Collect
import ClosureLint.Linter
import ClosureLint.Report

/-! The report on all files that path arguments stand for. -/

namespace ClosureLint

namespace Linter

/-- The findings in a file with a content; bytes that are no text have none. With `highestOnly`,
the gravest one at each place remains. -/
def findingsIn (linter : Linter) (highestOnly : Bool) (path : Path) (content : Content) :
    List Finding :=
  match content.text? with
  | none => []
  | some text =>
    let violations := linter.lint path text
    (if highestOnly then keepHighest violations else violations).map
      (Finding.locate path.spelling text)

end Linter

inductive ReportError where
  | collect (error : CollectError)
  /-- A file that was found cannot be read. -/
  | unreadable (path : Path)
  deriving DecidableEq, Repr

def ReportError.message : ReportError → String
  | .collect error => error.message
  | .unreadable path => s!"failed to read {path.spelling}"

namespace Report

def ofPaths (linter : Linter) (files : FileSystem) (highestOnly : Bool) (paths : List Path) :
    Except ReportError Report := do
  let found ← (collectFiles files linter.extensions paths).mapError .collect
  let perFile ← found.mapM fun path =>
    match files.read path with
    | .ok content => .ok (linter.findingsIn highestOnly path content)
    | .error _ => .error (.unreadable path)
  return ofFiles perFile

end Report

end ClosureLint
