import ClosureLint.Rust.Grammar.Path
import ClosureLint.WordSize

/-! Patterns. -/

namespace ClosureLint.Rust

open ClosureLint.Rust.Parser

variable (g : Grammar)

/-- Whether a bar comes next that separates alternatives. -/
def barComes : Parser Bool := comesAlone ['|'] [['|', '|'], ['|', '=']]

def alternatives : Parser Bool := do
  let any ← barComes
  many do
    if ← barComes then
      punct '|'
      discard g.pattern
      return true
    return false
  return any

def patterns : Parser PatternShape := do
  let leading ← punct? '|'
  let shape ← g.pattern
  let several ← alternatives g
  return if leading || several then .other else shape

def constantBlock : Parser Unit := construct do
  word .kwConst
  attributedBlock g

/-- Whether a colon comes next that is no part of a path. -/
def colonComes : Parser Bool := comesAlone [':'] [Symbol.path]

/-- The end of a range, or nothing where the range is open. -/
def rangeBound? : Parser Bool := do
  if ← anyOf [atEnd, punctComes '|', punctComes '=', colonComes, punctComes ',', punctComes ';',
      wordComes 0 .kwIf] then
    return false
  if ← literalComes then literal
  else if ← wordComes 0 .kwConst then constantBlock g
  else if ← anyOf [pathWordComes, comes Symbol.path, punctComes '<'] then
    discard (qualifiedPath g true)
  else fail
  return true

/-- The symbol of a range, with three dots in its old form; tells whether it includes its end. -/
def rangeSymbol (old : Bool) : Parser Bool := do
  if ← comes Symbol.rangeTo then
    symbol Symbol.rangeTo
    return true
  if ← comes Symbol.dots then
    if old then symbol? Symbol.dots else fail
  else
    symbol Symbol.range
    return false

/-- The rest of a range behind its beginning; tells what kind of pattern it is. -/
def rangeRest : Parser PatternShape := do
  let start ← position
  let closed ← rangeSymbol true
  if ← rangeBound? g then return .other
  if closed then fail
  return .openRange start

def openRange : Parser PatternShape := do
  let start ← position
  let closed ← rangeSymbol false
  if ← rangeBound? g then return .openRange start
  if closed then fail
  return .rest

/-- Whether a name comes next with something behind it that makes it a path. -/
def patternPathComes : Parser Bool :=
  anyOf [allOf [nameComes 0, anyOf [symbolComes 1 Symbol.path, symbolComes 1 ['!'],
      groupComes 1 .brace, groupComes 1 .parenthesis, symbolComes 1 Symbol.range]],
    allOf [wordComes 0 .kwSelf, symbolComes 1 Symbol.path],
    comes Symbol.path, punctComes '<', oneOf [.kwSelfType, .kwSuper, .kwCrate]]

def member : Parser Bool := do
  match ← lexemeBehind 0 with
  | some (.literal (.integer value suffixed)) =>
    if suffixed || wordBound 32 ≤ value then fail
    literalToken
    return false
  | _ =>
    name
    return true

/-- The pattern of a field. One that names the field alone and has `box` in front is kept unread. -/
def fieldPattern : Parser Unit := do
  let boxed ← word? .kwBox
  let byRef ← word? .kwRef
  let isMut ← word? .kwMut
  if boxed || byRef || isMut then name
  else
    let named ← member
    if !named || (← punctComes ':') then
      punct ':'
      discard (patterns g)

def fieldPatterns : Parser Unit :=
  many do
    if ← atEnd then return false
    outerAttributes g
    if ← symbol? Symbol.range then return false
    fieldPattern g
    if ← atEnd then return false
    punct ','
    return true

/-- A pattern that begins with a path: a path, a macro call, a struct or the begin of a range. -/
def pathPattern : Parser PatternShape := do
  let shape ← qualifiedPath g true
  if (← macroCall? shape).isSome then return .other
  if ← groupComes 0 .brace then
    group .brace (fieldPatterns g)
    return .other
  if ← groupComes 0 .parenthesis then
    group .parenthesis (commaList (discard (patterns g)))
    return .other
  if ← comes Symbol.range then rangeRest g
  else return .other

def namePattern : Parser Unit := do
  discard (word? .kwRef)
  discard (word? .kwMut)
  nameOr [.kwSelf]
  if ← punct? '@' then discard g.pattern

/-- A literal or block of constants, or a range that begins with one. -/
def literalPattern : Parser PatternShape := do
  unless ← rangeBound? g do fail
  if ← comes Symbol.range then rangeRest g
  else return .other

/-- A pattern in a list in brackets. A range without an end has to stand in parentheses there. -/
def elementPattern : Parser Unit := do
  match ← patterns g with
  | .openRange start => failAt start
  | _ => pure ()

def wordPattern (w : Word) : Parser PatternShape := do
  if w = .underscore then
    tree
    return .other
  if w = .kwBox then
    unseenIf (fun _ => true) do
      word .kwBox
      discard g.pattern
      return .unread
  else if w = .kwTrue || w = .kwFalse || w = .kwConst then literalPattern g
  else if w.isName || w = .kwRef || w = .kwMut || w = .kwSelf then
    namePattern g
    return .other
  else fail

/-- A pattern without alternatives. -/
def pattern : Parser PatternShape := do
  if ← patternPathComes then pathPattern g
  else
    match ← lexemeBehind 0 with
    | some (.word w) => wordPattern g w
    | some (.literal _) => literalPattern g
    | some (.punct '-' _) => literalPattern g
    | some (.punct '&' _) =>
      punct '&'
      discard (word? .kwMut)
      discard g.pattern
      return .other
    | some (.opening .parenthesis) =>
      group .parenthesis (commaList (discard (patterns g)))
      return .other
    | some (.opening .bracket) =>
      group .bracket (commaList (elementPattern g))
      return .other
    | _ =>
      if ← comesAlone Symbol.range [Symbol.dots] then openRange g
      else fail

end ClosureLint.Rust
