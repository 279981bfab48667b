import ClosureLint.Linter
import ClosureLint.Rust.Grammar
import ClosureLint.Rust.Lexer
import ClosureLint.Rust.Preamble

/-! The front end for Rust: the closures of a source text, with byte offsets into the whole text
including its preamble. Closures inside macro calls are not seen, since macros are not expanded. -/

namespace ClosureLint.Rust

/-- Why a source cannot be read: where it goes wrong, as a position in the text behind the
preamble. -/
structure SourceFault where
  position : Position
  deriving DecidableEq, Repr

/-- Where a token begins, with the beginning of the text if the tokens have ended. -/
def tokenPosition (code : Text) (tokens : Array Token) (index : Nat) : Position :=
  match tokens[index]? with
  | some token => code.position token.lo
  | none => .origin

def firstByte (tokens : Array Token) (index : Nat) : Nat := (tokens[index]?.map (·.lo)).getD 0

/-- One past the last byte of the token before an index. -/
def lastByte (tokens : Array Token) (index : Nat) : Nat := (tokens[index - 1]?.map (·.hi)).getD 0

/-- The closure at a range of tokens, in a text that begins `base` bytes into the file. Its body
runs from its first token to the end of its last one. -/
def closureAt (base : Nat) (tokens : Array Token) (range : ClosureRange) : Closure :=
  let body := firstByte tokens range.bodyStart
  ⟨base + firstByte tokens range.start, ⟨base + body, lastByte tokens range.stop - body⟩⟩

/-- The closures of a source text, each before those nested in it. -/
def closures (text : Text) : Except SourceFault (List Closure) :=
  let preamble := Preamble.split text
  match tokenize preamble.rest with
  | .error fault => .error ⟨preamble.rest.position fault.offset⟩
  | .ok tokens =>
    match closureRanges tokens with
    | .error fault => .error ⟨tokenPosition preamble.rest tokens fault.index⟩
    | .ok ranges => .ok (ranges.map (closureAt preamble.length tokens))

def frontEnd : FrontEnd where
  name := "rust"
  extensions := ["rs"]
  style := .rust
  closures? text := (closures text).toOption

end ClosureLint.Rust
