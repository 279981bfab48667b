import ClosureLint.Rust.Grammar.Ending
import ClosureLint.Rust.Grammar.Statement

/-! The grammar of Rust as one record of parsers. Its parts call each other through the record, so
the record is built in levels: the parsers of each level call those of the level below, and at the
bottom nothing can be read any more. A level is used up with every call, and between two tokens
there are only so many calls, so a number of levels that grows with the number of tokens is as good
as any larger one. -/

namespace ClosureLint.Rust

namespace Grammar

/-- The grammar that reads nothing. -/
def bottom : Grammar where
  expr _ := Parser.fail
  operand _ := Parser.fail
  blockLike := Parser.fail
  operators _ _ _ := Parser.fail
  type _ := Parser.fail
  bound _ _ := Parser.fail
  pattern := Parser.fail
  statements := Parser.fail
  item := Parser.fail
  fields := Parser.fail
  useTree _ := Parser.fail
  firm_expr _ := Parser.firm_fail
  firm_operand _ := Parser.firm_fail
  firm_type _ := Parser.firm_fail
  firm_bound _ _ := Parser.firm_fail
  steady_operators _ _ _ := Parser.Firm.steady
  leads_operand _ := ⟨nofun⟩

/-- The grammar with so many levels. The parsers of a level are built only when they are run. -/
def level : Nat → Grammar
  | 0 => bottom
  | n + 1 =>
    { expr := fun structs => Parser.delay fun _ => Rust.expr (level n) structs
      operand := fun structs => Parser.delay fun _ => Rust.operand (level n) structs
      blockLike := Parser.delay fun _ => Rust.blockLike (level n)
      operators := fun left structs base =>
        Parser.delay fun _ => Rust.operators (level n) left structs base
      type := fun sums => Parser.delay fun _ => Rust.type (level n) sums
      bound := fun captures constants =>
        Parser.delay fun _ => Rust.bound (level n) captures constants
      pattern := Parser.delay fun _ => Rust.pattern (level n)
      statements := Parser.delay fun _ => Rust.statements (level n)
      item := Parser.delay fun _ => Rust.item (level n)
      fields := Parser.delay fun _ => Rust.fields (level n)
      useTree := fun rooted => Parser.delay fun _ => Rust.useTree (level n) rooted
      firm_expr := fun structs => @Parser.Firm.delay _ _ (Rust.firm_expr (level n) structs)
      firm_operand := fun structs => @Parser.Firm.delay _ _ (Rust.firm_operand (level n) structs)
      firm_type := fun sums => @Parser.Firm.delay _ _ (Rust.firm_type (level n) sums)
      firm_bound := fun captures constants =>
        @Parser.Firm.delay _ _ (Rust.firm_bound (level n) captures constants)
      steady_operators := fun left structs base =>
        @Parser.Steady.delay _ _ (Rust.steady_operators (level n) left structs base)
      leads_operand := fun structs =>
        @Parser.Leads.delay _ _ _ (Rust.leads_operand (level n) structs) }

/-- The most calls from one part of the grammar to another that read no token, and one more. -/
def callsPerToken : Nat := 8

def ofSize (tokens : Nat) : Grammar := level (callsPerToken * (tokens + 1))

end Grammar

/-- A source file: its attributes and its items. -/
def sourceFile (g : Grammar) : Parser Unit := Parser.construct do
  innerAttributes g
  Parser.toEnd g.item

/-- The closures of a token array, as ranges of token indices. A token that is left over in a group
is at fault, unless another one is. -/
def closureRanges (tokens : Array Token) : Except Fault (List ClosureRange) :=
  match (sourceFile (Grammar.ofSize tokens.size)).run tokens 0 tokens.size with
  | .error fault => .error fault
  | .ok reading =>
    match reading.found.stray with
    | some index => .error ⟨index⟩
    | none => .ok reading.found.all

end ClosureLint.Rust
