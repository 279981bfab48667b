import ClosureLint.Rust.Grammar.Operator
import ClosureLint.Rust.Grammar.Type

/-! Expressions. Where an expression stands before a block, as in the condition of `if`, struct
literals may stand in it in parentheses only; the flag `structs` tells whether they may stand
openly. -/

namespace ClosureLint.Rust

open ClosureLint.Rust.Parser

variable (g : Grammar)

/-! ### Looking at expressions -/

/-- The symbols that begin an expression, each with those that do not although they begin with
it. -/
def exprOpenings : List (Text × List Text) :=
  [(['!'], [['!', '=']]), (['-'], [['-', '='], Symbol.arrow]), (['*'], [['*', '=']]),
    (['|'], [['|', '=']]), (['&'], [['&', '=']]), (Symbol.range, []),
    (['<'], [['<', '='], ['<', '<', '=']]), (Symbol.path, []), (['#'], [])]

def exprComes : Parser Bool := do
  match ← lexemeBehind 0 with
  | some (.word w) => return w ≠ .kwAs
  | some (.opening _) => return true
  | some (.literal _) => return true
  | some .lifetime => return true
  | _ =>
    let found ← symbolBehind 0
    return exprOpenings.any fun (s, others) =>
      s.isPrefixOf found && !others.any (·.isPrefixOf found)

/-- Whether declared lifetimes come behind the next token, so that it is no loop. -/
def lifetimesComeBehind : Parser Bool :=
  allOf [symbolComes 1 ['<'], anyOf [lifetimeComes 2, symbolComes 2 ['>']]]

def wordBlockComes (w : Word) : Parser Bool := allOf [wordComes 0 w, groupComes 1 .brace]

def asyncBlockComes : Parser Bool :=
  allOf [wordComes 0 .kwAsync,
    anyOf [groupComes 1 .brace, allOf [wordComes 1 .kwMove, groupComes 2 .brace]]]

def closureComes : Parser Bool :=
  anyOf [punctComes '|', wordComes 0 .kwMove, allOf [wordComes 0 .kwFor, lifetimesComeBehind],
    allOf [wordComes 0 .kwConst, isNot (groupComes 1 .brace)], wordComes 0 .kwStatic,
    allOf [wordComes 0 .kwAsync, anyOf [symbolComes 1 ['|'], wordComes 1 .kwMove]]]

instance still_asyncBlockComes : asyncBlockComes.Still := by
  unfold asyncBlockComes
  infer_instance

instance still_closureComes : closureComes.Still := by
  unfold closureComes lifetimesComeBehind
  infer_instance

def pathComes : Parser Bool :=
  anyOf [pathWordComes, comes Symbol.path, punctComes '<',
    allOf [wordComes 0 .kwTry, anyOf [symbolComes 1 ['!'], symbolComes 1 Symbol.path]]]

instance still_pathComes : pathComes.Still := by
  unfold pathComes pathWordComes
  infer_instance

/-! ### Closures -/

def closureParameter : Parser Unit :=
  discard <| attributed (outerAttributes g)
    (do
      let shape ← g.pattern
      if ← punct? ':' then
        discard (g.type true)
        return false
      return shape = .unread)
    .ofUnread

/-- The words in front of a closure, with the lifetimes that it declares. -/
def closureMarks : Parser Unit := do
  discard (boundLifetimes? g)
  discard (word? .kwConst)
  discard (word? .kwStatic)
  discard (word? .kwAsync)
  discard (word? .kwMove)

def closureParameters : Parser Unit := do
  punct '|'
  listUntil (punctComes '|') (closureParameter g)
  punct '|'

/-- A closure up to its body; tells whether it has a return type. -/
def closureHead : Parser Bool := do
  closureMarks g
  closureParameters g
  return (← returnType? g true).isSome

instance firm_bar : (punct '|').Firm := firm_symbol (by decide) (by decide)

instance firm_closureHead : (closureHead g).Firm := by
  have : (closureParameters g).Firm := by
    unfold closureParameters
    infer_instance
  unfold closureHead
  infer_instance

/-- The first token of a closure is a word in front of it, or the first bar. -/
instance quiet_closureHead : (closureHead g).Quiet := by
  have : (closureMarks g).Quiet := by
    unfold closureMarks
    infer_instance
  unfold closureHead closureParameters
  infer_instance

/-- A closure. Behind a return type its body is a block. -/
def closureExpr (structs : Bool) : Parser Unit :=
  closure (closureHead g) fun typed =>
    if typed then plainBlock g else discard (g.expr structs)

instance leads_closureExpr (structs : Bool) : (closureExpr g structs).Leads fun _ => .closure :=
  leads_closure ..

/-! ### Blocks -/

/-- A condition or the like, which a block follows. -/
def header : Parser Unit := discard (g.expr false)

def ifExpr : Parser Unit :=
  many do
    word .kwIf
    header g
    plainBlock g
    if ← word? .kwElse then
      if ← wordComes 0 .kwIf then return true
      plainBlock g
    return false

/-- A loop, or a block that its attributes may stand in. -/
def blockExpr : Parser Unit := construct do
  if ← word? .kwWhile then header g
  else if ← word? .kwFor then
    discard (patterns g)
    word .kwIn
    header g
  else if ← oneOf [.kwLoop, .kwUnsafe, .kwConst] then anyWord
  attributedBlock g

def labeledExpr : Parser Unit := do
  lifetime
  punct ':'
  if ← anyOf [oneOf [.kwWhile, .kwFor, .kwLoop], groupComes 0 .brace] then blockExpr g
  else fail

/-- Whether an expression comes next that ends with its block. -/
def blockLikeComes : Parser Bool :=
  anyOf [oneOf [.kwIf, .kwWhile, .kwLoop, .kwMatch, .kwUnsafe],
    allOf [wordComes 0 .kwFor, isNot lifetimesComeBehind], wordBlockComes .kwTry,
    wordBlockComes .kwConst, groupComes 0 .brace, lifetimeComes 0]

instance still_blockLikeComes : blockLikeComes.Still := by
  unfold blockLikeComes lifetimesComeBehind wordBlockComes
  infer_instance

/-! ### Match -/

/-- The beginning of an expression that may end where its block does; tells whether it does. -/
def leftOperand : Parser (Bool × ExprShape) := do
  if ← blockLikeComes then
    g.blockLike
    if ← anyOf [pointComes, punctComes '?'] then
      return (false, ← trailers g (.ofKind .blockLike))
    return (true, .ofKind .blockLike)
  return (false, ← g.operand true)

/-- It is a closure only where no block comes. -/
instance leads_leftOperand : (leftOperand g).Leads fun left => left.2.owner := by
  have hblock : ∀ more : Bool, (if more then do
      return (false, ← trailers g (.ofKind .blockLike))
    else return (true, .ofKind .blockLike) : Parser (Bool × ExprShape)).Returns fun left =>
      left.2.owner ≠ .closure := fun more =>
    .ite ((returns_trailers g _).map fun _ h => mt h nofun) (returns_pure nofun)
  refine .look fun _ => .ite ?_ ?_
  · exact .of_returns (.bind fun _ => .bind hblock)
  · exact .bind (g.leads_operand true) fun _ => returns_pure id

/-- An expression that ends where its block does, if it begins with one. -/
def boundedExpr : Parser ExprShape := do
  let (complete, shape) ← attributed (outerAttributes g) (leftOperand g) fun left => left.2.owner
  if complete then return shape
  else operators g shape true .loosest

/-- An arm of a match. A comma has to stand behind it unless it ends with a block. -/
def arm : Parser Unit := construct do
  outerAttributes g
  discard (patterns g)
  if ← word? .kwIf then discard (g.expr true)
  symbol Symbol.fatArrow
  let body ← boundedExpr g
  if ← atEnd then return
  if body.kind = .blockLike then discard (punct? ',')
  else punct ','

def matchExpr : Parser Unit := construct do
  word .kwMatch
  header g
  group .brace do
    innerAttributes g
    toEnd (arm g)

def blockLike : Parser Unit := do
  if ← wordComes 0 .kwIf then ifExpr g
  else if ← wordComes 0 .kwMatch then matchExpr g
  else if ← word? .kwTry then plainBlock g
  else if ← lifetimeComes 0 then labeledExpr g
  else blockExpr g

/-! ### Paths and structs -/

/-- The value of a field; a field with a name alone takes the value of that name. -/
def fieldValue : Parser Unit := do
  outerAttributes g
  let named ← member
  if !named || (← punctComes ':') then
    punct ':'
    discard (g.expr true)

def fieldValues : Parser Unit :=
  many do
    if ← atEnd then return false
    if ← symbol? Symbol.range then
      unless ← atEnd do discard (g.expr true)
      return false
    fieldValue g
    if ← atEnd then return false
    punct ','
    return true

/-- A path, a macro call or a struct literal. -/
def pathExpr (structs : Bool) : Parser ExprShape := do
  let shape ← qualifiedPath g true
  match ← macroCall? shape with
  | some .brace => return .ofKind .braceMacro
  | some _ => return .other
  | none =>
    if structs && (← groupComes 0 .brace) then group .brace (fieldValues g)
    return .other

/-! ### Jumps and the like -/

def jumpValue : Parser Unit := do
  if ← exprComes then discard (g.expr true)

/-- A way out of a loop or block. A loop with a label as its value has to stand in parentheses. -/
def breakExpr (structs : Bool) : Parser Unit := do
  word .kwBreak
  let start ← position
  let labeled ← lifetimeComes 0
  if labeled && (← symbolComes 1 [':']) then
    discard (g.expr true)
    failAt start
  if labeled then lifetime
  if structs || !(← groupComes 0 .brace) then jumpValue g

/-- A call of what is built in, which is kept unread. -/
def builtinExpr : Parser Unit := do
  word .kwBuiltin
  punct '#'
  name
  rawGroup .parenthesis

/-- A jump that the grammar keeps unread. -/
def becomeExpr : Parser Unit :=
  unseenIf (fun _ => true) do
    word .kwBecome
    discard (g.expr true)

/-- The contents of an array: its elements, or one element and their number. -/
def elements : Parser Unit := do
  if ← atEnd then return
  discard (g.expr true)
  if ← punct? ';' then discard (g.expr true)
  else if ← punct? ',' then exprList g
  else unless ← atEnd do fail

def letExpr (structs : Bool) : Parser Unit := do
  word .kwLet
  discard (patterns g)
  punct '='
  discard (operators g (← g.operand structs) structs .compare)

def asyncBlock : Parser Unit := do
  word .kwAsync
  discard (word? .kwMove)
  plainBlock g

/-! ### Operands -/

/-- An expression that begins with a word and is no path. -/
def wordExpr (structs : Bool) (w : Word) : Parser ExprShape := do
  if w = .kwBreak then breakExpr g structs
  else if w = .kwContinue then
    word .kwContinue
    discard lifetime?
  else if w = .kwReturn || w = .kwYield then
    anyWord
    jumpValue g
  else if w = .kwLet then letExpr g structs
  else word .underscore
  return .other

/-- An operand without operators in front or behind. -/
def atom (structs : Bool) : Parser ExprShape := do
  if ← literalComes then
    literal
    return .other
  if ← asyncBlockComes then
    asyncBlock g
    return .other
  if ← closureComes then
    closureExpr g structs
    return .ofKind .closure
  if ← blockLikeComes then
    blockLike g
    return .ofKind .blockLike
  if ← allOf [wordComes 0 .kwBuiltin, symbolComes 1 ['#']] then
    builtinExpr
    return .ofKind .unread
  if ← pathComes then pathExpr g structs
  else
    match ← lexemeBehind 0 with
    | some (.opening .parenthesis) =>
      group .parenthesis (exprList g)
      return .other
    | some (.opening .bracket) =>
      group .bracket (elements g)
      return .other
    | some (.word .kwBecome) =>
      becomeExpr g
      return .ofKind .unread
    | some (.word w) => wordExpr g structs w
    | _ =>
      rangeTail g structs
      return .ofKind .range

theorem returns_pathExpr (structs : Bool) :
    (pathExpr g structs).Returns fun shape => shape.owner ≠ .closure := by
  refine .bind fun shape => .bind fun delimiter? => ?_
  split
  · exact returns_pure nofun
  · exact returns_pure nofun
  · exact .bind fun _ => .ite (.bind fun _ => returns_pure nofun) (returns_pure nofun)

theorem returns_wordExpr (structs : Bool) (w : Word) :
    (wordExpr g structs w).Returns fun shape => shape.owner ≠ .closure := by
  have hother : ∀ p : Parser Unit, (do p; return .other : Parser ExprShape).Returns fun shape =>
      shape.owner ≠ .closure := fun _ => .bind fun _ => returns_pure nofun
  refine .ite (hother _) (.ite ?_ (.ite ?_ (.ite (hother _) (hother _))))
  · exact .bind fun _ => hother _
  · exact .bind fun _ => hother _

instance leads_atom (structs : Bool) : (atom g structs).Leads ExprShape.owner := by
  have hother : ∀ {p : Parser Unit} {kind : ExprKind}, ExprShape.ownerOf kind ≠ .closure →
      (do p; return .ofKind kind : Parser ExprShape).Leads ExprShape.owner := fun h =>
    .of_returns (.bind fun _ => returns_pure h)
  refine .look fun _ => .ite (hother nofun) ?_
  refine .look fun _ => .ite (hother nofun) ?_
  refine .look fun _ => .ite (.bind (leads_closureExpr g structs) fun _ => returns_pure id) ?_
  refine .look fun _ => .ite (hother nofun) ?_
  refine .look fun _ => .ite (hother nofun) ?_
  refine .look fun _ => .ite (.of_returns (returns_pathExpr g structs)) ?_
  refine .look fun lexeme? => ?_
  split
  · exact hother nofun
  · exact hother nofun
  · exact hother nofun
  · exact .of_returns (returns_wordExpr g structs _)
  · exact hother nofun

/-- The mark of a raw pointer, if it comes next: a word with the kind of the pointer behind it. -/
def rawMark? : Parser Bool :=
  onlyIf (allOf [wordComes 0 .kwRaw, anyOf [wordComes 1 .kwMut, wordComes 1 .kwConst]]) anyWord

def plainOperand (structs : Bool) : Parser ExprShape := do
  if ← punctComes '&' then
    punct '&'
    let raw ← rawMark?
    let mutable ← word? .kwMut
    if raw && !mutable then word .kwConst
    discard (g.operand structs)
    return .other
  if ← anyOf [punctComes '*', punctComes '!', punctComes '-'] then
    tree
    discard (g.operand structs)
    return .other
  trailers g (← atom g structs)

instance leads_plainOperand (structs : Bool) :
    (plainOperand g structs).Leads ExprShape.owner := by
  refine .look fun _ => .ite (.of_returns ?_) (.look fun _ => .ite (.of_returns ?_) ?_)
  · refine .bind fun _ => .bind fun raw => .bind fun mutable => .ite ?_ ?_
    · exact .bind fun _ => .bind fun _ => returns_pure nofun
    · exact .bind fun _ => returns_pure nofun
  · exact .bind fun _ => .bind fun _ => returns_pure nofun
  · exact .bind (leads_atom g structs) (returns_trailers g)

/-- An operand behind its attributes, if it has any. They may not belong to a range. -/
def markedOperand (structs marked : Bool) : Parser ExprShape := do
  let start ← position
  let shape ← plainOperand g structs
  if marked && shape.kind = .range then failAt start
  return shape

instance leads_markedOperand (structs marked : Bool) :
    (markedOperand g structs marked).Leads ExprShape.owner := by
  refine .look fun start => .bind (leads_plainOperand g structs) fun shape => ?_
  exact .ite (.bind fun _ => returns_pure id) (returns_pure id)

/-- An operand with its attributes. -/
def operand (structs : Bool) : Parser ExprShape := do
  let marked ← attributeComes
  attributed (outerAttributes g) (markedOperand g structs marked) ExprShape.owner

theorem leads_operand (structs : Bool) : (operand g structs).Leads ExprShape.owner :=
  .look fun _ => .attributed

def expr (structs : Bool) : Parser ExprShape := do
  operators g (← g.operand structs) structs .loosest

end ClosureLint.Rust
