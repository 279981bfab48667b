import ClosureLint.Rust.Grammar.Expr
import ClosureLint.Rust.Grammar.Item

/-! Statements. An expression needs a semicolon behind it, unless it ends with a block or stands at
the end of its block. -/

namespace ClosureLint.Rust

open ClosureLint.Rust.Parser

variable (g : Grammar)

structure StatementShape where
  /-- What the attributes in front of it belong to. -/
  owner : Owner
  /-- Nothing may follow it, since a semicolon is missing. -/
  last : Bool

def StatementShape.complete : StatementShape := ⟨.other, false⟩

inductive MacroStart where
  /-- An item, with a name behind the exclamation mark. -/
  | item
  /-- A call in braces that is a statement of its own. -/
  | statement

/-- The beginning of a statement up to a macro's exclamation mark. -/
def macroStart? : Parser (Option MacroStart) := do
  plainPath
  punct '!'
  if ← anyOf [nameComes 0, wordComes 0 .kwTry] then return some .item
  let behind ← symbolBehind 1
  let continues := (['.'].isPrefixOf behind && !Symbol.range.isPrefixOf behind) ||
    ['?'].isPrefixOf behind
  if (← groupComes 0 .brace) && !continues then return some .statement
  return none

def itemComes : Parser Bool :=
  anyOf [oneOf [.kwPub, .kwExtern, .kwUse, .kwFn, .kwMod, .kwType, .kwStruct, .kwEnum, .kwTrait,
      .kwImpl, .kwMacro],
    allOf [wordComes 0 .kwCrate, isNot (symbolComes 1 Symbol.path)],
    allOf [wordComes 0 .kwStatic, anyOf [wordComes 1 .kwMut, nameComes 1]],
    allOf [wordComes 0 .kwConst,
      isNot (anyOf [groupComes 1 .brace, wordComes 1 .kwStatic, wordComes 1 .kwMove,
        symbolComes 1 ['|'],
        allOf [wordComes 1 .kwAsync, isNot (anyOf [wordComes 2 .kwUnsafe, wordComes 2 .kwExtern,
          wordComes 2 .kwFn])]])],
    allOf [wordComes 0 .kwUnsafe, isNot (groupComes 1 .brace)],
    allOf [wordComes 0 .kwAsync,
      anyOf [wordComes 1 .kwUnsafe, wordComes 1 .kwExtern, wordComes 1 .kwFn]],
    allOf [wordComes 0 .kwUnion, nameComes 1],
    allOf [wordComes 0 .kwAuto, wordComes 1 .kwTrait],
    allOf [wordComes 0 .kwDefault, anyOf [wordComes 1 .kwUnsafe, wordComes 1 .kwImpl]]]

instance still_itemComes : itemComes.Still := by
  unfold itemComes
  infer_instance

def behindBrace : Parser Bool :=
  look fun tokens pos _ => (tokens[pos - 1]?.map (·.lexeme)) == some (.closing .brace)

/-- A variable with its value, and a block for the case that its pattern does not fit. That block
may not follow another one at once. -/
def localVariable : Parser Unit := do
  word .kwLet
  discard g.pattern
  if ← punct? ':' then discard (g.type true)
  if ← value? g then
    if !(← behindBrace) && (← word? .kwElse) then plainBlock g
  punct ';'

def exprStatement : Parser StatementShape := do
  let shape ← boundedExpr g
  let ended ← punct? ';'
  let block := shape.kind = .blockLike || shape.kind = .braceMacro
  return ⟨shape.owner, !ended && !block⟩

/-- A closure that an expression begins with stays first behind it. -/
instance leads_exprStatement : (exprStatement g).Leads StatementShape.owner := by
  have hbounded : (boundedExpr g).Leads ExprShape.owner :=
    .bind (@Leads.attributed _ _ _ _ _ (leads_leftOperand g)) fun left =>
      .ite (returns_pure id) (returns_operators g left.2 true .loosest)
  exact .bind hbounded fun _ => .bind fun _ => returns_pure id

def statementRest : Parser StatementShape := do
  let start := (← ahead? macroStart?).join
  match start with
  | some .statement =>
    plainPath
    punct '!'
    discard anyGroup
    discard (punct? ';')
    return .complete
  | _ =>
    if ← wordComes 0 .kwLet then
      localVariable g
      return .complete
    else if start.isSome || (← itemComes) then
      let unread ← construct (unseenIf id (itemRest g))
      return ⟨.ofUnread unread, false⟩
    else exprStatement g

instance leads_statementRest : (statementRest g).Leads StatementShape.owner := by
  have hitem : ∀ {p : Parser Bool}, (do
      let unread ← p
      return ⟨.ofUnread unread, false⟩ : Parser StatementShape).Leads StatementShape.owner :=
    .of_returns (.bind fun unread => returns_pure (Owner.ofUnread_ne unread))
  refine .look fun start => ?_
  dsimp only
  split
  · exact .of_returns (.bind fun _ => .bind fun _ => .bind fun _ => .bind fun _ =>
      returns_pure nofun)
  · refine .look fun _ => .ite (.of_returns (.bind fun _ => returns_pure nofun)) ?_
    exact .look fun _ => .ite hitem (leads_exprStatement g)

def statements : Parser Unit :=
  many do
    many (punct? ';')
    if ← atEnd then return false
    let shape ← attributed (outerAttributes g) (statementRest g) StatementShape.owner
    if shape.last && !(← atEnd) then fail
    return true

end ClosureLint.Rust
