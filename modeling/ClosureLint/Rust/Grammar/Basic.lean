import ClosureLint.Rust.Beginning

/-! Words, symbols and lists of tokens, and what the parts of the grammar have to know of one
another. The grammar is recursive; its parts take one another from a record of parsers, and the
record that they make up together is built in `ClosureLint.Rust.Grammar`. -/

namespace ClosureLint.Rust

namespace Symbol

/-! Symbols of more than one character. -/

def path : Text := [':', ':']
def arrow : Text := ['-', '>']
def fatArrow : Text := ['=', '>']
def range : Text := ['.', '.']
def rangeTo : Text := ['.', '.', '=']
def dots : Text := ['.', '.', '.']

end Symbol

/-! ### Looking at tokens -/

def lexemeAt (tokens : Array Token) (stop index : Nat) : Option Lexeme :=
  if index < stop then tokens[index]?.map (·.lexeme) else none

/-- The punctuation characters that stand at an index without a gap, at most so many. Documentation
counts as the mark that opens an attribute. -/
def symbolAt (tokens : Array Token) (stop : Nat) : (count : Nat) → (index : Nat) → Text
  | 0, _ => []
  | count + 1, index =>
    match lexemeAt tokens stop index with
    | some (.punct c true) => c :: symbolAt tokens stop count (index + 1)
    | some (.punct c false) => [c]
    | some (.doc _) => ['#']
    | _ => []

/-- The most characters that a symbol has. -/
def symbolLength : Nat := 3

/-- The index behind so many tokens, where a group counts as one token. -/
def indexBehind (tokens : Array Token) (count pos : Nat) : Nat := count.repeat (treeEnd tokens) pos

namespace Parser

/-- The punctuation characters that come behind `count` tokens. -/
def symbolBehind (count : Nat) : Parser Text :=
  look fun tokens pos stop => symbolAt tokens stop symbolLength (indexBehind tokens count pos)

def lexemeBehind (count : Nat) : Parser (Option Lexeme) :=
  look fun tokens pos stop => lexemeAt tokens stop (indexBehind tokens count pos)

/-- Whether the symbol comes behind `count` tokens, perhaps as the beginning of a longer one. -/
def symbolComes (count : Nat) (s : Text) : Parser Bool := do
  return s.isPrefixOf (← symbolBehind count)

/-- Whether the symbol comes next, perhaps as the beginning of a longer one. -/
def comes (s : Text) : Parser Bool := symbolComes 0 s

def punctComes (c : Char) : Parser Bool := comes [c]

/-- Whether the symbol comes next and is not the beginning of any of the others. -/
def comesAlone (s : Text) (others : List Text) : Parser Bool := do
  let found ← symbolBehind 0
  return s.isPrefixOf found && !others.any (·.isPrefixOf found)

def wordBehind? (count : Nat) : Parser (Option Word) := do
  match ← lexemeBehind count with
  | some (.word w) => return some w
  | _ => return none

def wordComes (count : Nat) (w : Word) : Parser Bool := do
  return (← wordBehind? count) == some w

def oneOf (words : List Word) : Parser Bool := do
  return (← wordBehind? 0).any words.contains

def nameComes (count : Nat) : Parser Bool := do
  return (← wordBehind? count).any Word.isName

def groupComes (count : Nat) (d : Delimiter) : Parser Bool := do
  return (← lexemeBehind count) == some (.opening d)

def lifetimeComes (count : Nat) : Parser Bool := do
  return (← lexemeBehind count) == some .lifetime

/-- Whether a literal comes next: one token, a truth value, or a number with its sign. -/
def literalComes : Parser Bool := do
  match ← lexemeBehind 0 with
  | some (.literal _) => return true
  | some (.word .kwTrue) => return true
  | some (.word .kwFalse) => return true
  | some (.punct '-' _) =>
    match ← lexemeBehind 1 with
    | some (.literal (.integer ..)) => return true
    | some (.literal (.float _)) => return true
    | _ => return false
  | _ => return false

/-! ### Reading tokens -/

def trees : (count : Nat) → Parser Unit
  | 0 => pure ()
  | count + 1 => do tree; trees count

def symbol (s : Text) : Parser Unit := do
  if ← comes s then trees s.length else fail

def punct (c : Char) : Parser Unit := symbol [c]

def symbol? (s : Text) : Parser Bool := do
  if ← comes s then trees s.length; return true
  else return false

def punct? (c : Char) : Parser Bool := symbol? [c]

def word (w : Word) : Parser Unit :=
  token fun
    | .word v => if v = w then some () else none
    | _ => none

def word? (w : Word) : Parser Bool := do
  if ← wordComes 0 w then word w; return true
  else return false

def name : Parser Unit :=
  token fun
    | .word w => if w.isName then some () else none
    | _ => none

def anyWord : Parser Unit :=
  token fun
    | .word _ => some ()
    | _ => none

def nameOr (words : List Word) : Parser Unit :=
  token fun
    | .word w => if w.isName || words.contains w then some () else none
    | _ => none

def lifetime : Parser Unit :=
  token fun
    | .lifetime => some ()
    | _ => none

def lifetime? : Parser Bool := do
  if ← lifetimeComes 0 then lifetime; return true
  else return false

def literalToken : Parser Unit :=
  token fun
    | .literal _ => some ()
    | .word .kwTrue => some ()
    | .word .kwFalse => some ()
    | _ => none

def literal : Parser Unit := do
  if ← literalComes then
    discard (punct? '-')
    literalToken
  else fail

/-- Reads a group of any kind without a look at its contents, and tells its delimiter. -/
def anyGroup : Parser Delimiter := do
  match ← lexemeBehind 0 with
  | some (.opening d) => tree; return d
  | _ => fail

def rawGroup (d : Delimiter) : Parser Unit := do
  if ← groupComes 0 d then tree else fail

/-! ### Lists -/

/-- Reads items up to the end, with commas between them and perhaps one behind the last. -/
def commaList (item : Parser Unit) : Parser Unit :=
  many do
    if ← atEnd then return false
    item
    if ← atEnd then return false
    punct ','
    return true

/-- Reads items up to the end, each complete in itself. -/
def toEnd (item : Parser Unit) : Parser Unit :=
  many do
    if ← atEnd then return false
    item
    return true

/-- Reads items between commas until one may not begin any more. -/
def listUntil (ends : Parser Bool) (item : Parser Unit) : Parser Unit :=
  many do
    if ← ends then return false
    item
    if ← ends then return false
    punct ','
    return true

/-- Reads items joined by plus signs; none may begin where `ends` holds. -/
def sum (ends : Parser Bool) (item : Parser Unit) : Parser Unit :=
  many do
    if ← ends then return false
    item
    punct? '+'

def anyOf : List (Parser Bool) → Parser Bool
  | [] => pure false
  | p :: rest => do
    if ← p then return true
    anyOf rest

def allOf : List (Parser Bool) → Parser Bool
  | [] => pure true
  | p :: rest => do
    if ← p then allOf rest
    else return false

def isNot (p : Parser Bool) : Parser Bool := do return !(← p)

def onlyIf (condition : Parser Bool) (p : Parser Unit) : Parser Bool := do
  if ← condition then p; return true
  else return false

end Parser

/-! ### What the parts of the grammar know of one another -/

/-- How tightly operators bind, from loose to tight. -/
inductive Precedence where
  | loosest
  | assign
  | range
  | or
  | and
  | condition
  | compare
  | bitOr
  | bitXor
  | bitAnd
  | shift
  | sum
  | product
  | cast
  deriving DecidableEq, Repr

def Precedence.rank : Precedence → Nat
  | .loosest => 0
  | .assign => 1
  | .range => 2
  | .or => 3
  | .and => 4
  | .condition => 5
  | .compare => 6
  | .bitOr => 7
  | .bitXor => 8
  | .bitAnd => 9
  | .shift => 10
  | .sum => 11
  | .product => 12
  | .cast => 13

inductive ExprKind where
  | closure
  /-- An expression that is kept unread. -/
  | unread
  | range
  /-- A comparison, which no other one may follow. -/
  | comparison
  /-- An expression that ends with its block, so that it needs nothing behind it. -/
  | blockLike
  /-- A macro call in braces. -/
  | braceMacro
  | other
  deriving DecidableEq, Repr

structure ExprShape where
  kind : ExprKind
  /-- What attributes in front of it would belong to, in a statement. -/
  owner : Parser.Owner
  deriving DecidableEq, Repr

namespace ExprShape

/-- What attributes directly in front of an expression of a kind belong to. -/
def ownerOf : ExprKind → Parser.Owner
  | .closure => .closure
  | .unread => .unread
  | _ => .other

def ofKind (kind : ExprKind) : ExprShape := ⟨kind, ownerOf kind⟩

/-- An expression that attributes do not look into. -/
def other : ExprShape := ofKind .other

end ExprShape

inductive TypeShape where
  /-- A path; `simple` if it is a single name, perhaps with parameters in angle brackets. -/
  | path (qualified : Bool) (simple : Bool)
  /-- A single bound of a trait object. -/
  | bound
  /-- A type in parentheses. -/
  | enclosed
  | other
  deriving DecidableEq, Repr

inductive PatternShape where
  /-- A range without one of its ends; `index` is that of its symbol. -/
  | openRange (index : Nat)
  /-- The rest of a list. -/
  | rest
  /-- A pattern that is kept unread. -/
  | unread
  | other
  deriving DecidableEq, Repr

/-- The recursive parts of the grammar. None of what an expression is made of ends with
documentation, and an operand that is a closure begins with it. -/
structure Grammar where
  /-- An expression, with or without struct literals. -/
  expr : (structs : Bool) → Parser ExprShape
  /-- An operand: an expression without binary operators. -/
  operand : (structs : Bool) → Parser ExprShape
  /-- An expression that ends with its block. -/
  blockLike : Parser Unit
  /-- The operators behind an operand, as long as they bind at least so tightly. -/
  operators : ExprShape → (structs : Bool) → Precedence → Parser ExprShape
  /-- A type, with or without further bounds behind a plus sign. -/
  type : (sums : Bool) → Parser TypeShape
  /-- A bound, where the flags allow a list of captured names and bounds for constant contexts;
  tells whether it is a trait. -/
  bound : (captures constants : Bool) → Parser Bool
  /-- A pattern without alternatives. -/
  pattern : Parser PatternShape
  /-- The statements of a block. -/
  statements : Parser Unit
  item : Parser Unit
  /-- The fields of a struct with names. -/
  fields : Parser Unit
  /-- The tree of an import; tells whether it is kept unread. -/
  useTree : (rooted : Bool) → Parser Bool
  firm_expr : ∀ structs, (expr structs).Firm
  firm_operand : ∀ structs, (operand structs).Firm
  firm_type : ∀ sums, (type sums).Firm
  firm_bound : ∀ captures constants, (bound captures constants).Firm
  steady_operators : ∀ left structs base, (operators left structs base).Steady
  leads_operand : ∀ structs, (operand structs).Leads ExprShape.owner

attribute [instance] Grammar.firm_expr Grammar.firm_operand Grammar.firm_type Grammar.firm_bound
  Grammar.steady_operators Grammar.leads_operand

end ClosureLint.Rust
