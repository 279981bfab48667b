import ClosureLint.Files.Path
import ClosureLint.Violation

/-! The linter runs every rule over every closure that the front end of a file finds. The first
front end that declares the file's extension is in charge of the file, whatever it makes of it. -/

namespace ClosureLint

/-- What finds the closures in the files of a language. -/
structure FrontEnd where
  name : String
  /-- The extensions of its files, in lower case and without the point. -/
  extensions : List String
  style : CommentStyle
  /-- The closures of a text in order; none where the text cannot be parsed. -/
  closures? : Text → Option (List Closure)

structure Linter where
  frontEnds : List FrontEnd
  rules : List Rule

namespace Linter

def empty : Linter := ⟨[], []⟩

def addFrontEnd (linter : Linter) (frontEnd : FrontEnd) : Linter :=
  { linter with frontEnds := linter.frontEnds ++ [frontEnd] }

def addRule (linter : Linter) (rule : Rule) : Linter :=
  { linter with rules := linter.rules ++ [rule] }

def descriptions (linter : Linter) : List RuleDescription := linter.rules.map (·.description)

/-- The extensions that some front end declares, in lower case and with repetitions. -/
def extensions (linter : Linter) : List String :=
  linter.frontEnds.flatMap fun frontEnd => frontEnd.extensions.map asciiLower

def frontEndFor? (linter : Linter) (path : Path) : Option FrontEnd := do
  let extension ← path.extension?
  linter.frontEnds.find? fun frontEnd => frontEnd.extensions.contains (asciiLower extension)

/-- What a list of rules finds at a list of closures: closure by closure, and at each closure rule
by rule. -/
def applyRules (rules : List Rule) (file : SourceText) (closures : List Closure) :
    List Violation :=
  closures.flatMap fun closure => rules.flatMap fun rule => rule.validate file closure

/-- The findings in a file. A file without a front end, or that its front end cannot parse, has
none. -/
def lint (linter : Linter) (path : Path) (text : Text) : List Violation :=
  match linter.frontEndFor? path with
  | none => []
  | some frontEnd =>
    match frontEnd.closures? text with
    | none => []
    | some closures =>
      if closures.isEmpty || linter.rules.isEmpty then []
      else applyRules linter.rules (SourceText.ofText text frontEnd.style) closures

end Linter

end ClosureLint
