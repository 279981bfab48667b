import ClosureLint.Rust.Literal
import ClosureLint.Rust.Preamble

/-! From a text to its tokens. Blanks and plain comments separate tokens, every opening delimiter
has a closing one of its kind, and a text without tokens somewhere has a first place where that
shows. -/

namespace ClosureLint.Rust

/-- The place that a source is refused at: a byte offset. -/
structure LexicalFault where
  offset : Nat
  deriving DecidableEq, Repr

/-- A character between tokens: a blank, or a mark of the writing direction. -/
def isSpace (c : Char) : Bool :=
  isWhiteSpace c || c == '\u200e' || c == '\u200f'

/-- The characters of a block comment behind its opening, up to the end of its last level. -/
def blockWidth : (depth : Nat) → (width : Nat) → Measure
  | depth, width, '/' :: '*' :: rest => blockWidth (depth + 1) (width + 2) rest
  | depth, width, '*' :: '/' :: rest =>
    if depth ≤ 1 then some (width + 2) else blockWidth (depth - 1) (width + 2) rest
  | depth, width, _ :: rest => blockWidth depth (width + 1) rest
  | _, _, [] => none

/-- The characters up to the newline that ends a line, together with the carriage return in front
of it. -/
def lineWidth : (width : Nat) → Text → Nat
  | width, [] => width
  | width, '\r' :: '\n' :: _ => width + 1
  | width, c :: rest => if c == '\n' then width else lineWidth (width + 1) rest

def comment? : Measure
  | '/' :: '/' :: '!' :: _ => none
  | '/' :: '/' :: '/' :: '/' :: rest => some (lineWidth 4 rest)
  | '/' :: '/' :: '/' :: _ => none
  | '/' :: '/' :: rest => some (lineWidth 2 rest)
  | '/' :: '*' :: '*' :: '/' :: _ => some 4
  | '/' :: '*' :: '!' :: _ => none
  | '/' :: '*' :: '*' :: '*' :: rest => blockWidth 1 2 ('*' :: '*' :: rest)
  | '/' :: '*' :: '*' :: _ => none
  | '/' :: '*' :: rest => blockWidth 1 2 rest
  | _ => none

/-- The character, or the plain comment, that separates tokens at the front of a text. -/
def separator? : Measure
  | [] => none
  | c :: rest => if isSpace c then some 1 else comment? (c :: rest)

/-- Whether each carriage return among the characters has a newline behind it. -/
def isCleanDoc : Text → Bool
  | [] => true
  | '\r' :: '\n' :: rest => isCleanDoc rest
  | c :: rest => c ≠ '\r' && isCleanDoc rest

/-- The characters of the documentation in a line, behind the `width` characters that open it. The
carriage return in front of the newline is part of the comment, but not of its content. -/
def lineDoc? (width : Nat) (rest : Text) : Option Nat :=
  let n := lineWidth 0 rest
  let content := rest.take n
  let content := if (rest.drop n).isEmpty then content
    else if content.getLast? = some '\r' then content.dropLast else content
  if isCleanDoc content then some (width + n) else none

def blockDoc? (rest : Text) : Option Nat := do
  let n ← blockWidth 1 2 rest
  if isCleanDoc ((rest.drop 1).take (n - 5)) then some n else none

/-- A documentation comment: whether it is about what it stands in, and its characters. -/
def doc? : Text → Option (Bool × Nat)
  | '/' :: '/' :: '!' :: rest => (lineDoc? 3 rest).map (true, ·)
  | '/' :: '*' :: '!' :: rest => (blockDoc? ('!' :: rest)).map (true, ·)
  | '/' :: '/' :: '/' :: '/' :: _ => none
  | '/' :: '/' :: '/' :: rest => (lineDoc? 3 rest).map (false, ·)
  | '/' :: '*' :: '*' :: '*' :: _ => none
  | '/' :: '*' :: '*' :: rest => (blockDoc? ('*' :: rest)).map (false, ·)
  | _ => none

/-- The punctuation characters other than the quote. -/
def punctuation : Text :=
  ['~', '!', '@', '#', '$', '%', '^', '&', '*', '-', '=', '+', '|', ';', ':', ',', '<', '.', '>',
    '/', '?']

/-- Whether a text begins with a punctuation character that does not open a comment. -/
def beginsPunct : Text → Bool
  | '/' :: '/' :: _ => false
  | '/' :: '*' :: _ => false
  | c :: _ => punctuation.contains c || c == '\''
  | [] => false

/-- A quote that is no character literal, and how many characters belong to its token: the name
behind it is left to the next token if a literal begins with it. -/
def lifetimeLexeme? (rest : Text) : Option (Lexeme × Nat) := do
  let n ← anyWord? rest
  match rest.drop n with
  | '\'' :: _ => none
  | '#' :: _ =>
    if ['r', '#'].isPrefixOf rest then named n else none
  | _ => named n
where
  named (n : Nat) : Option (Lexeme × Nat) :=
    if (literal? rest).isSome || (wordLexeme? rest).isNone then some (.quote, 1)
    else some (.lifetime, n + 1)

/-- A punctuation character or a lifetime. -/
def punctLexeme? (t : Text) : Option (Lexeme × Nat) :=
  match t with
  | '\'' :: rest => lifetimeLexeme? rest
  | c :: rest => if beginsPunct t then some (.punct c (beginsPunct rest), 1) else none
  | [] => none

/-- A token other than documentation and delimiters, and its characters. -/
def leaf? (t : Text) : Option (Lexeme × Nat) :=
  match literal? t with
  | some (kind, n) => some (.literal kind, n)
  | none =>
    match punctLexeme? t with
    | some found => some found
    | none =>
      match wordLexeme? t with
      | some n => some (.word (Word.ofText (t.take n)), n)
      | none =>
        if errorMark.isPrefixOf t then some (.literal .quoted, errorMark.length) else none

def opens? (t : Text) : Option Delimiter :=
  match t with
  | '(' :: _ => if errorMark.isPrefixOf t then none else some .parenthesis
  | '[' :: _ => some .bracket
  | '\x7b' :: _ => some .brace
  | _ => none

def closes? : Text → Option Delimiter
  | ')' :: _ => some .parenthesis
  | ']' :: _ => some .bracket
  | '\x7d' :: _ => some .brace
  | _ => none

structure Lexer where
  rest : Text
  /-- The offset at which `rest` begins. -/
  offset : Nat
  tokens : Array Token
  /-- The delimiters that are open, with the indices of their tokens, innermost first. -/
  unclosed : List (Delimiter × Nat)

namespace Lexer

def skip : Lexer → Nat → Lexer
  | ⟨rest, offset, tokens, unclosed⟩, n =>
    ⟨rest.drop n, offset + Text.byteLength (rest.take n), tokens, unclosed⟩

def push : Lexer → Lexeme → Nat → Lexer
  | ⟨rest, offset, tokens, unclosed⟩, lexeme, n =>
    let next := offset + Text.byteLength (rest.take n)
    ⟨rest.drop n, next, tokens.push ⟨lexeme, offset, next, 0⟩, unclosed⟩

def enter (s : Lexer) (d : Delimiter) : Lexer :=
  let unclosed := (d, s.tokens.size) :: s.unclosed
  { s.push (.opening d) 1 with unclosed := unclosed }

/-- Takes in a closing delimiter, which has to fit the innermost one that is open. -/
def leave (s : Lexer) (d : Delimiter) : Except LexicalFault Lexer :=
  match s.unclosed with
  | [] => .error ⟨s.offset⟩
  | (opened, index) :: outer =>
    if opened = d then
      match s.push (.closing d) 1 with
      | ⟨rest, offset, tokens, _⟩ =>
        let partner := tokens.size - 1
        .ok ⟨rest, offset, tokens.modify index fun token => { token with partner := partner },
          outer⟩
    else .error ⟨s.offset⟩

/-- One separator or token of a text that has not ended. -/
def step (s : Lexer) : Except LexicalFault Lexer :=
  match separator? s.rest with
  | some n => .ok (s.skip n)
  | none =>
    match doc? s.rest with
    | some (inner, n) => .ok (s.push (.doc inner) n)
    | none =>
      match opens? s.rest, closes? s.rest with
      | some d, _ => .ok (s.enter d)
      | none, some d => s.leave d
      | none, none =>
        match leaf? s.rest with
        | some (lexeme, n) => .ok (s.push lexeme n)
        | none => .error ⟨s.offset⟩

/-- The tokens of what is left; `fuel` bounds their number. A delimiter that is still open at the
end is at fault. -/
def run : (fuel : Nat) → Lexer → Except LexicalFault (Array Token)
  | 0, s => .error ⟨s.offset⟩
  | fuel + 1, s =>
    if s.rest.isEmpty then
      match s.unclosed with
      | [] => .ok s.tokens
      | (_, index) :: _ => .error ⟨(s.tokens[index]?.map (·.lo)).getD s.offset⟩
    else
      match s.step with
      | .ok next => run fuel next
      | .error fault => .error fault

end Lexer

/-- The tokens of a text. A byte order mark at its front is skipped, but counts as a character. -/
def tokenize (t : Text) : Except LexicalFault (Array Token) :=
  let start : Lexer := ⟨t, 0, #[], []⟩
  let start := match t with
    | '\ufeff' :: _ => start.skip 1
    | _ => start
  start.run (t.length + 1)

end ClosureLint.Rust
