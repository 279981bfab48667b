import ClosureLint.Text
import ClosureLint.WhiteSpace

/-! What may stand in front of a Rust source without being part of it: a byte order mark, and a
line that begins with `#!` and names an interpreter. `#!` followed by `[` opens an attribute
instead, also when blanks and comments come between; documentation comments are no comments in
this sense, since they stand for attributes. -/

namespace ClosureLint.Rust

/-- The text behind the end of a block comment that is open `depth` times. Block comments nest. -/
def afterBlock? : (depth : Nat) → Text → Option Text
  | depth, '/' :: '*' :: rest => afterBlock? (depth + 1) rest
  | depth, '*' :: '/' :: rest => if depth ≤ 1 then some rest else afterBlock? (depth - 1) rest
  | depth, _ :: rest => afterBlock? depth rest
  | _, [] => none

/-- Whether the text behind a comment opener makes the comment one of documentation: an
exclamation mark, or the opener's last character once more but not twice. -/
def isDocumentation (marker : Char) : Text → Bool
  | '!' :: _ => true
  | c :: rest => c == marker && rest.head? != some marker
  | [] => false

def afterLine (t : Text) : Text := (t.dropWhile (· ≠ '\n')).drop 1

/-- The text behind blanks and comments, unless it begins with documentation; `fuel` bounds the
number of comments. -/
def skipTriviaFrom : (fuel : Nat) → Text → Text
  | 0, t => t
  | fuel + 1, t =>
    match t.dropWhile isWhiteSpace with
    | '/' :: '/' :: rest =>
      if isDocumentation '/' rest then '/' :: '/' :: rest else skipTriviaFrom fuel (afterLine rest)
    | '/' :: '*' :: rest =>
      if isDocumentation '*' rest && !(['*', '/'].isPrefixOf rest) then '/' :: '*' :: rest
      else match afterBlock? 1 rest with
        | some next => skipTriviaFrom fuel next
        | none => []
    | next => next

/-- The text behind any blanks and comments. -/
def skipTrivia (t : Text) : Text := skipTriviaFrom (t.length + 1) t

/-- Whether a text begins with the line that names an interpreter. -/
def opensShebang : Text → Bool
  | '#' :: '!' :: rest => (skipTrivia rest).head? != some '['
  | _ => false

structure Preamble where
  /-- The number of bytes cut off. -/
  length : Nat
  rest : Text
  deriving DecidableEq, Repr

namespace Preamble

/-- Cuts off the first line of a text if it names an interpreter. The newline stays, so lines keep
their numbers. -/
def cutShebang (t : Text) : Preamble :=
  if opensShebang t then
    let (line, rest) := t.span (· ≠ '\n')
    ⟨Text.byteLength line, rest⟩
  else ⟨0, t⟩

/-- Cuts off a byte order mark and the line of an interpreter. -/
def split : Text → Preamble
  | '\ufeff' :: t =>
    let cut := cutShebang t
    ⟨'\ufeff'.utf8Size + cut.length, cut.rest⟩
  | t => cutShebang t

end Preamble

end ClosureLint.Rust
