import ClosureLint.Rust.Grammar.Pattern
import ClosureLint.Rust.Grammar.Type

/-! Generic parameters and their conditions, and the heads of functions. -/

namespace ClosureLint.Rust

open ClosureLint.Rust.Parser

variable (g : Grammar)

/-! ### Parameters -/

/-- The bounds behind a colon, if there is one, up to where `ends` holds; tells whether there is a
colon. -/
def bounds? (ends : Parser Bool) : Parser Bool :=
  onlyIf (punctComes ':') do
    punct ':'
    sum ends (discard (g.bound false true))

def typeParameter : Parser Unit := do
  name
  discard (bounds? g (anyOf [punctComes ',', punctComes '>', punctComes '=']))
  if ← punct? '=' then discard (g.type true)

def constantParameter : Parser Unit := do
  word .kwConst
  name
  punct ':'
  discard (g.type true)
  if ← punct? '=' then constant g

def lifetimeParameter : Parser Unit := do
  lifetime
  if ← punct? ':' then sum (anyOf [punctComes ',', punctComes '>']) lifetime

def genericParameter : Parser Unit := do
  outerAttributes g
  if ← lifetimeComes 0 then lifetimeParameter
  else if ← nameComes 0 then typeParameter g
  else if ← wordComes 0 .kwConst then constantParameter g
  else word .underscore

/-- Generic parameters, if there are any; tells whether. -/
def generics? : Parser Bool :=
  onlyIf (punctComes '<') <| asGeneric do
    punct '<'
    listUntil (punctComes '>') (genericParameter g)
    punct '>'

/-! ### Conditions -/

def conditionsEnd : Parser Bool :=
  anyOf [atEnd, groupComes 0 .brace, punctComes ',', punctComes ';', colonComes, punctComes '=']

def condition : Parser Unit := do
  if ← allOf [lifetimeComes 0, symbolComes 1 [':']] then
    lifetime
    punct ':'
    sum (anyOf [atEnd, groupComes 0 .brace, punctComes ',', punctComes ';', punctComes ':',
      punctComes '=']) lifetime
  else
    discard (boundLifetimes? g)
    discard (g.type true)
    punct ':'
    sum conditionsEnd (discard (g.bound false true))

/-- The conditions on generic parameters, if there are any; tells whether. -/
def conditions? : Parser Bool :=
  onlyIf (wordComes 0 .kwWhere) <| asGeneric do
    word .kwWhere
    many do
      if ← conditionsEnd then return false
      condition g
      punct? ','

/-! ### Functions -/

/-- The head of a method's receiver, with its type if it has one; tells the index of `self`. -/
def receiver : Parser Nat := do
  let byRef ← punct? '&'
  if byRef then discard lifetime?
  discard (word? .kwMut)
  let start ← position
  word .kwSelf
  if !byRef && (← punct? ':') then discard (g.type true)
  return start

/-- A parameter of a function that is no receiver; tells whether it stands for any number of
parameters, so that it is the last one. -/
def functionParameter : Parser Bool := do
  if ← allOf [nameComes 0, symbolComes 1 ['<']] then
    discard (g.type true)
    return false
  discard g.pattern
  punct ':'
  if ← symbol? Symbol.dots then return true
  discard (g.type true)
  return false

/-- The comma behind the last parameter, if anything is left. -/
def lastComma : Parser Unit := do
  unless ← atEnd do punct ','

/-- The parameters of a function. A receiver may only be the first one. -/
def functionParameters : Parser Unit :=
  loop true fun first => do
    if ← atEnd then return .inr ()
    outerAttributes g
    if ← symbol? Symbol.dots then
      lastComma
      return .inr ()
    match ← attempt? (receiver g) with
    | some start => unless first do failAt start
    | none =>
      if ← functionParameter g then
        lastComma
        return .inr ()
    if ← atEnd then return .inr ()
    punct ','
    return .inl false

/-- The words in front of a function, where `safe` may be one of them; tells whether it is. -/
def functionMarks (safe : Bool) : Parser Bool := do
  discard (word? .kwConst)
  discard (word? .kwAsync)
  let isUnsafe ← word? .kwUnsafe
  let isSafe ← if safe && !isUnsafe then word? .kwSafe else pure false
  discard abi?
  word .kwFn
  return isSafe

def functionComes (safe : Bool) : Parser Bool := do
  return (← ahead? (functionMarks safe)).isSome

/-- The head of a function; tells whether it is marked as safe. -/
def functionHead (safe : Bool) : Parser Bool := do
  let isSafe ← functionMarks safe
  name
  discard (generics? g)
  group .parenthesis (functionParameters g)
  discard (returnType? g true)
  discard (conditions? g)
  return isSafe

end ClosureLint.Rust
