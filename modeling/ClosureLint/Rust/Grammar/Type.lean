import ClosureLint.Rust.Grammar.Path

/-! Types and the bounds of types. -/

namespace ClosureLint.Rust

open ClosureLint.Rust.Parser

variable (g : Grammar)

/-! ### Bounds -/

def boundLifetimes : Parser Unit := do
  word .kwFor
  punct '<'
  listUntil (punctComes '>') do
    outerAttributes g
    lifetime
  punct '>'

/-- Lifetimes that are declared on the spot, if there are any; tells whether. -/
def boundLifetimes? : Parser Bool := onlyIf (wordComes 0 .kwFor) (boundLifetimes g)

instance quiet_boundLifetimes? : (boundLifetimes? g).Quiet := by
  unfold boundLifetimes? boundLifetimes
  infer_instance

def captureList : Parser Unit := do
  word .kwUse
  punct '<'
  listUntil (punctComes '>') do
    if ← lifetimeComes 0 then lifetime
    else nameOr [.kwSelfType]
  punct '>'

/-- The mark of a bound for constant contexts; tells whether there is one. -/
def constantMark (allowed : Bool) : Parser Bool := do
  let start ← position
  let marked ← do
    if ← groupComes 0 .bracket then
      group .bracket (word .kwConst)
      pure true
    else word? .kwConst
  if marked && !allowed then failAt start
  return marked

/-- A trait with its modifiers; tells whether it is kept unread, as bounds for constant contexts
are. -/
def traitBound (constants : Bool) : Parser Bool := do
  let declared ← boundLifetimes? g
  let unread ← constantMark constants
  let mark ← position
  let relaxed ← punct? '?'
  let declared ← if !declared && relaxed then boundLifetimes? g else pure declared
  let shape ← path g false
  if shape.bare && (← callArgumentsCome) then discard (callArguments g)
  if declared && relaxed then failAt mark
  return unread

/-- A bound: a lifetime, a list of captured names, or a trait; tells whether it is a trait. -/
def bound (captures constants : Bool) : Parser Bool := do
  if ← lifetimeComes 0 then
    lifetime
    return false
  if ← wordComes 0 .kwUse then
    let start ← position
    captureList
    if captures then return false
    failAt start
  discard <| unseenIf id do
    if ← groupComes 0 .parenthesis then group .parenthesis (traitBound g constants)
    else traitBound g constants
  return true

def boundComes (constants : Bool) : Parser Bool := do
  match ← lexemeBehind 0 with
  | some (.word _) => return true
  | some .lifetime => return true
  | some (.opening .parenthesis) => return true
  | some (.opening .bracket) => return constants
  | _ => anyOf [comes Symbol.path, punctComes '?']

/-- Further bounds, each behind a plus sign; the last plus sign may stay without a bound. Tells
whether a trait is among them, or `found` holds already. -/
def moreBounds (captures constants found : Bool) : Parser Bool :=
  loop found fun found => do
    if ← punct? '+' then
      if ← boundComes constants then
        return .inl ((← g.bound captures constants) || found)
    return .inr found

/-- The bounds of a trait object or of a hidden type. At least one of them is a trait; otherwise the
token at `start` is refused. -/
def objectBounds (start : Nat) (sums captures constants : Bool) : Parser Unit := do
  let first ← g.bound captures constants
  let found ← if sums then moreBounds g captures constants first else pure first
  unless found do failAt start

/-! ### Types -/

/-- The bounds behind the first one of a trait object without a keyword. -/
def objectRest : Parser Unit :=
  many do
    if ← punct? '+' then
      discard (g.bound false false)
      return true
    return false

inductive Enclosed where
  /-- A tuple, or a type that nothing can be added to. -/
  | complete (shape : TypeShape)
  /-- A bound, to which others may be added in any case. -/
  | relaxedBound
  /-- One type. -/
  | type (shape : TypeShape)

def enclosedType : Parser Enclosed := do
  if ← atEnd then return .complete .other
  if ← lifetimeComes 0 then
    let start ← position
    objectBounds g start true false false
    return .complete .enclosed
  if ← punctComes '?' then
    discard (traitBound g false)
    return .relaxedBound
  let shape ← g.type true
  if ← punct? ',' then
    commaList (discard (g.type true))
    return .complete .other
  return .type shape

def parenthesizedType (sums : Bool) : Parser TypeShape := do
  match ← group .parenthesis (enclosedType g) with
  | .complete shape => return shape
  | .relaxedBound =>
    let several ← punctComes '+'
    objectRest g
    return if several then .other else .bound
  | .type shape =>
    let extensible := match shape with
      | .path qualified _ => !qualified
      | .bound => true
      | _ => false
    if sums && extensible && (← punctComes '+') then
      objectRest g
      return .other
    return .enclosed

def abi : Parser Unit := do
  word .kwExtern
  if (← lexemeBehind 0) == some (.literal .string) then tree

def abi? : Parser Bool := onlyIf (wordComes 0 .kwExtern) abi

/-- Whether a name or an underscore comes next, with a single colon behind it. -/
def labelComes (words : List Word) : Parser Bool := do
  if (← wordBehind? 0).any fun w => w.isName || words.contains w then
    let found ← symbolBehind 1
    return [':'].isPrefixOf found && !Symbol.path.isPrefixOf found
  return false

/-- A parameter of a function pointer. The first one may be `self`, which is kept unread where it
has no type or is mutable. -/
def pointerParameter (first : Bool) : Parser Unit := do
  let mutable := first && (← allOf [wordComes 0 .kwMut, wordComes 1 .kwSelf])
  discard <| unseenIf id do
    if mutable then word .kwMut
    let words := if first then [.underscore, .kwSelf] else [.underscore]
    if ← labelComes words then
      anyWord
      punct ':'
      discard (g.type true)
    else if mutable then word .kwSelf
    else discard (g.type true)
    return mutable

/-- Whether the dots of further parameters come next, perhaps behind a label. -/
def pointerDotsCome : Parser Bool :=
  anyOf [comes Symbol.dots,
    allOf [anyOf [nameComes 0, wordComes 0 .underscore], symbolComes 1 [':'],
      symbolComes 2 Symbol.dots]]

def pointerParameters : Parser Unit :=
  loop true fun first => do
    if ← atEnd then return .inr ()
    outerAttributes g
    if ← pointerDotsCome then
      if ← anyOf [nameComes 0, wordComes 0 .underscore] then
        anyWord
        punct ':'
      symbol Symbol.dots
      discard (punct? ',')
      return .inr ()
    pointerParameter g first
    if ← atEnd then return .inr ()
    punct ','
    return .inl false

def functionPointer : Parser Unit := do
  discard (word? .kwUnsafe)
  discard abi?
  word .kwFn
  group .parenthesis (pointerParameters g)
  discard (returnType? g false)

/-- A path as a type, with parameters in parentheses where they may stand. -/
def typePath : Parser PathShape := do
  let shape ← qualifiedPath g false
  loop shape fun shape => do
    if shape.bare && (← callArgumentsCome) then
      let more ← callArguments g
      let shape := { shape with plain := false, bare := false, called := true }
      if more && (← nextSegment) then
        return .inl (← pathSegments g false nextSegment { shape with single := false })
      return .inl shape
    return .inr shape

/-- A type that begins with a path: the path, a macro call, or a trait object. -/
def namedType (declared sums : Bool) : Parser TypeShape := do
  let shape ← typePath g
  if shape.qualified then return .path true false
  if (← macroCall? shape).isSome then return .other
  let several ← punctComes '+'
  if declared || (sums && several) then
    if sums then discard (moreBounds g false false true)
    return if sums && several then .other else .bound
  return .path false (shape.single && !shape.called)

def wordType (declared sums : Bool) (w : Word) : Parser TypeShape := do
  if w = .kwFn || w = .kwUnsafe || w = .kwExtern then
    functionPointer g
    return .other
  else if w.isName || pathWords.contains w then namedType g declared sums
  else if w = .kwDyn then
    let start ← position
    discard <| unseenIf id do
      word .kwDyn
      let unread ← punct? '*'
      objectBounds g start sums false false
      return unread
    return .other
  else if w = .kwImpl then
    let start ← position
    word .kwImpl
    objectBounds g start sums true true
    return .other
  else if w = .underscore then
    word .underscore
    return .other
  else fail

/-- An array or a slice, inside its brackets. -/
def elementType : Parser Unit := do
  discard (g.type true)
  if ← punct? ';' then discard (g.expr true)

def pointerType (c : Char) : Parser Unit := do
  punct c
  if c = '*' then
    unless ← word? .kwConst do word .kwMut
  else
    discard lifetime?
    discard (word? .kwMut)
  discard (g.type false)

/-- A type; `sums` allows further bounds behind a plus sign. -/
def type (sums : Bool) : Parser TypeShape := do
  if ← wordComes 0 .kwFor then
    boundLifetimes g
    let w ← wordBehind? 0
    match w with
    | some w =>
      if w.isName || pathWords.contains w || w = .kwFn || w = .kwUnsafe || w = .kwExtern then
        wordType g true sums w
      else fail
    | none => fail
  else
    match ← lexemeBehind 0 with
    | some (.opening .parenthesis) => parenthesizedType g sums
    | some (.opening .bracket) =>
      group .bracket (elementType g)
      return .other
    | some (.word w) => wordType g false sums w
    | some (.punct '*' _) =>
      pointerType g '*'
      return .other
    | some (.punct '&' _) =>
      pointerType g '&'
      return .other
    | some (.punct '!' _) =>
      punct '!'
      return .other
    | some .lifetime =>
      let start ← position
      objectBounds g start true false false
      return .other
    | _ =>
      if ← anyOf [comes Symbol.path, punctComes '<'] then namedType g false sums
      else fail

end ClosureLint.Rust
