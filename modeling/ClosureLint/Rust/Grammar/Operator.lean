import ClosureLint.Rust.Grammar.Pattern
import ClosureLint.Rust.Literal

/-! Binary operators, and what may follow an operand: calls, indices, fields and the like. A range
takes no operator behind it, and comparisons do not follow each other. -/

namespace ClosureLint.Rust

open ClosureLint.Rust.Parser

variable (g : Grammar)

/-! ### The operators -/

/-- The binary operators with their precedence. A symbol comes before those it begins with. -/
def binaryOperators : List (Text × Precedence) :=
  [(['+', '='], .assign), (['-', '='], .assign), (['*', '='], .assign), (['/', '='], .assign),
    (['%', '='], .assign), (['^', '='], .assign), (['&', '='], .assign), (['|', '='], .assign),
    (['<', '<', '='], .assign), (['>', '>', '='], .assign), (['&', '&'], .and), (['|', '|'], .or),
    (['<', '<'], .shift), (['>', '>'], .shift), (['=', '='], .compare), (['<', '='], .compare),
    (['!', '='], .compare), (['>', '='], .compare), (['+'], .sum), (['-'], .sum),
    (['*'], .product), (['/'], .product), (['%'], .product), (['^'], .bitXor), (['&'], .bitAnd),
    (['|'], .bitOr), (['<'], .compare), (['>'], .compare)]

/-- The binary operator that comes next. -/
def binaryOperator? : Parser (Option (Text × Precedence)) := do
  let found ← symbolBehind 0
  return binaryOperators.find? fun operator => operator.1.isPrefixOf found

/-- Whether an equals sign comes next that is no arrow. -/
def assignComes : Parser Bool := comesAlone ['='] [Symbol.fatArrow]

/-- The precedence of the operator that comes next, the loosest without one. -/
def comingPrecedence : Parser Precedence := do
  match ← binaryOperator? with
  | some (_, precedence) => return precedence
  | none =>
    if ← assignComes then return .assign
    if ← comes Symbol.range then return .range
    if ← wordComes 0 .kwAs then return .cast
    return .loosest

/-- Whether a point comes next that is no range. -/
def pointComes : Parser Bool := comesAlone ['.'] [Symbol.range]

/-- The right side of an operator: an operand and all operators behind it that bind more tightly,
or as tightly in an assignment. -/
def rightSide (structs : Bool) (precedence : Precedence) : Parser Unit := do
  loop (← g.operand structs) fun side => do
    let next ← comingPrecedence
    if precedence.rank < next.rank || (next = precedence && precedence = .assign) then
      let before ← position
      let side ← g.operators side structs next
      if (← position) = before then return .inr ()
      return .inl side
    return .inr ()

/-- The symbols that end a range without an end. -/
def openRangeEnds : List Text :=
  [[','], [';'], ['?'], Symbol.fatArrow, ['='], ['+'], ['/'], ['%'], ['^'], ['>'], ['<', '='],
    ['!', '='], ['-', '='], ['*', '='], ['&', '='], ['|', '='], ['<', '<', '=']]

def rangeStaysOpen (structs : Bool) : Parser Bool := do
  let found ← symbolBehind 0
  if openRangeEnds.any (·.isPrefixOf found) then return true
  if !structs && (← groupComes 0 .brace) then return true
  anyOf [atEnd, pointComes, wordComes 0 .kwAs]

def rangeTail (structs : Bool) : Parser Unit := do
  let closed ← rangeSymbol false
  if closed || !(← rangeStaysOpen structs) then rightSide g structs .range

/-- The target of a cast. Nothing that would apply to the cast as a whole may follow. -/
def castTail : Parser Unit := do
  word .kwAs
  discard (g.type false)
  if ← anyOf [pointComes, punctComes '?', groupComes 0 .bracket, groupComes 0 .parenthesis] then
    fail

/-- The operators behind an operand, as long as they bind at least as tightly as `base`. -/
def operators (left : ExprShape) (structs : Bool) (base : Precedence) : Parser ExprShape :=
  loop left fun left => do
    if left.kind = .range then return .inr left
    match ← binaryOperator? with
    | some (s, precedence) =>
      if precedence.rank < base.rank then return .inr left
      let comparison := precedence = .compare
      if comparison && left.kind = .comparison then fail
      symbol s
      rightSide g structs precedence
      return .inl ⟨if comparison then .comparison else .other, left.owner⟩
    | none =>
      if base.rank ≤ Precedence.assign.rank && (← assignComes) then
        punct '='
        rightSide g structs .assign
        return .inl ⟨.other, left.owner⟩
      else if base.rank ≤ Precedence.range.rank && (← comes Symbol.range) then
        rangeTail g structs
        return .inl (.ofKind .range)
      else if ← wordComes 0 .kwAs then
        castTail g
        return .inl ⟨.other, left.owner⟩
      else return .inr left

/-- What attributes belong to is not changed by operators, unless to a range. -/
theorem returns_operators (left : ExprShape) (structs : Bool) (base : Precedence) :
    (operators g left structs base).Returns fun shape =>
      shape.owner = .closure → left.owner = .closure := by
  refine Returns.loop (I := fun shape : ExprShape => shape.owner = .closure → left.owner = .closure)
    (fun shape hshape => .ite (returns_pure hshape) (.bind fun operator? => ?_)) id
  split
  · refine .ite (returns_pure hshape) (.ite ?_ ?_)
    · exact .bind fun _ => .bind fun _ => .bind fun _ => returns_pure hshape
    · exact .bind fun _ => .bind fun _ => returns_pure hshape
  · refine .bind fun _ => .ite (.bind fun _ => .bind fun _ => returns_pure hshape) ?_
    refine .bind fun _ => .ite (.bind fun _ => returns_pure nofun) ?_
    exact .bind fun _ => .ite (.bind fun _ => returns_pure hshape) (returns_pure hshape)

/-! ### Behind an operand -/

def exprList : Parser Unit := commaList (discard (g.expr true))

def pieces (digits : Text) : List Text :=
  digits.foldr
    (fun c pieces => if c = '.' then [] :: pieces else match pieces with
      | piece :: rest => (c :: piece) :: rest
      | [] => [[c]])
    [[]]

def isFieldNumber (chars : Text) : Bool :=
  match literal? chars with
  | some (.integer value false, width) => width = chars.length && value < wordBound 32
  | _ => false

/-- Field numbers that were read as one number with a point in it. Tells whether the number ends
with the point of a further field. -/
def joinedFields (digits : Text) : Parser Bool := do
  let parts := pieces digits
  let continued := parts.getLast? = some []
  if (if continued then parts.dropLast else parts).all isFieldNumber then
    literalToken
    return continued
  else fail

/-- What follows the point of a field: `await`, the field, or a method with its arguments. -/
def memberTail : Parser Unit := do
  if ← word? .kwAwait then return
  let named ← member
  let parameters ← if named then onlyIf (comes Symbol.path) do
      symbol Symbol.path
      angleArguments g
    else pure false
  if parameters || (named && (← groupComes 0 .parenthesis)) then
    group .parenthesis (exprList g)

/-- One thing behind an operand; tells whether there is any. -/
def trailer : Parser Bool := do
  if ← groupComes 0 .parenthesis then
    group .parenthesis (exprList g)
    return true
  if ← groupComes 0 .bracket then
    group .bracket (discard (g.expr true))
    return true
  if ← pointComes then
    punct '.'
    match ← lexemeBehind 0 with
    | some (.literal (.float digits)) => if ← joinedFields digits then memberTail g
    | _ => memberTail g
    return true
  if ← punctComes '?' then
    punct '?'
    return true
  return false

/-- All that follows an operand, and what the operand is then. -/
def trailers (operand : ExprShape) : Parser ExprShape :=
  loop operand fun operand => do
    if operand.kind = .range then return .inr operand
    if ← trailer g then return .inl .other
    return .inr operand

theorem returns_trailers (operand : ExprShape) :
    (trailers g operand).Returns fun shape =>
      shape.owner = .closure → operand.owner = .closure := by
  refine Returns.loop
    (I := fun shape : ExprShape => shape.owner = .closure → operand.owner = .closure)
    (fun shape hshape => .ite (returns_pure hshape) (.bind fun _ => ?_)) id
  exact .ite (returns_pure nofun) (returns_pure hshape)

end ClosureLint.Rust
