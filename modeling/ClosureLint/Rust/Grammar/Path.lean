import ClosureLint.Rust.Grammar.Attribute

/-! Paths and their parameters. -/

namespace ClosureLint.Rust

open ClosureLint.Rust.Parser

variable (g : Grammar)

structure PathShape where
  /-- The path begins with a type in angle brackets. -/
  qualified : Bool
  /-- The path is one part without a symbol in front of it. -/
  single : Bool
  /-- No part has parameters. -/
  plain : Bool
  /-- The last part has no parameters. -/
  bare : Bool
  /-- Some part has parameters in parentheses. -/
  called : Bool
  deriving DecidableEq, Repr

/-- A block that stands for an expression. -/
def plainBlock : Parser Unit := group .brace g.statements

instance firm_plainBlock : (plainBlock g).Firm := firm_group .brace g.statements

/-- A block whose attributes may stand inside it. -/
def attributedBlock : Parser Unit := group .brace do
  innerAttributes g
  g.statements

/-! ### Parameters -/

/-- Whether a constant comes next that cannot be taken for a type. -/
def constantComes : Parser Bool := anyOf [literalComes, groupComes 0 .brace]

/-- A constant as a parameter: a literal, a name or a block. -/
def constant : Parser Unit := do
  if ← literalComes then literal
  else if ← nameComes 0 then name
  else if ← groupComes 0 .brace then construct (attributedBlock g)
  else fail

/-- A parameter in angle brackets: a lifetime, a constant, a type, or what is to hold of a member
of a trait. -/
def angleArgument : Parser Unit := do
  if ← allOf [lifetimeComes 0, isNot (symbolComes 1 ['+'])] then lifetime
  else if ← constantComes then constant g
  else
    match ← g.type true with
    | .path false true =>
      if ← punct? '=' then
        if ← constantComes then constant g
        else discard (g.type true)
      else if ← punct? ':' then
        sum (anyOf [punctComes ',', punctComes '>']) (discard (g.bound false true))
    | _ => pure ()

def angleArguments : Parser Unit := do
  punct '<'
  listUntil (punctComes '>') (angleArgument g)
  punct '>'

/-- The type behind an arrow, if there is one. -/
def returnType? (sums : Bool) : Parser (Option TypeShape) := do
  if ← symbol? Symbol.arrow then return some (← g.type sums)
  return none

instance steady_returnType? (sums : Bool) : (returnType? g sums).Steady := by
  have : (symbol? Symbol.arrow).Steady := steady_symbol? (by decide)
  unfold returnType?
  infer_instance

/-- Whether parameters in parentheses come next, perhaps behind a path symbol. -/
def callArgumentsCome : Parser Bool :=
  anyOf [groupComes 0 .parenthesis, allOf [comes Symbol.path, groupComes 2 .parenthesis]]

/-- Parameters in parentheses with a return type; tells whether more parts of the path may
follow. -/
def callArguments : Parser Bool := do
  discard (symbol? Symbol.path)
  group .parenthesis (commaList (discard (g.type true)))
  match ← returnType? g false with
  | none => return true
  | some shape => return shape = .enclosed

/-! ### Paths -/

/-- One part of a path; tells whether it has parameters. In an expression, parameters stand behind
a path symbol only. -/
def pathSegment (inExpr : Bool) : Parser Bool := do
  if ← oneOf [.kwSuper, .kwSelf, .kwCrate, .kwTry] then
    anyWord
    return false
  nameOr [.kwSelfType]
  let direct ← comesAlone ['<'] [['<', '=']]
  if (!inExpr && direct) || (← allOf [comes Symbol.path, symbolComes 2 ['<']]) then
    discard (symbol? Symbol.path)
    angleArguments g
    return true
  return false

/-- The parts of a path, where `more` steps to the next part if there is one. -/
def pathSegments (inExpr : Bool) (more : Parser Bool) (before : PathShape) : Parser PathShape :=
  loop before fun shape => do
    let parameters ← pathSegment g inExpr
    let shape := { shape with plain := shape.plain && !parameters, bare := !parameters }
    if ← more then return .inl { shape with single := false }
    return .inr shape

/-- Steps to the next part of a path, unless parameters in parentheses come next. -/
def nextSegment : Parser Bool := do
  if ← groupComes 2 .parenthesis then return false
  symbol? Symbol.path

def path (inExpr : Bool) : Parser PathShape := do
  let rooted ← symbol? Symbol.path
  pathSegments g inExpr nextSegment ⟨false, !rooted, true, true, false⟩

/-- A path that may begin with a type in angle brackets. -/
def qualifiedPath (inExpr : Bool) : Parser PathShape := do
  if ← punct? '<' then
    discard (g.type true)
    if ← word? .kwAs then discard (path g false)
    punct '>'
    symbol Symbol.path
    pathSegments g inExpr (symbol? Symbol.path) ⟨true, false, true, true, false⟩
  else path g inExpr

/-- Whether an exclamation mark comes next that is not part of a comparison. -/
def bangComes : Parser Bool := comesAlone ['!'] [['!', '=']]

/-- The arguments of a macro, if the path before them is that of a macro call. -/
def macroCall? (shape : PathShape) : Parser (Option Delimiter) := do
  if !shape.qualified && shape.plain && (← bangComes) then
    punct '!'
    return some (← anyGroup)
  return none

end ClosureLint.Rust
