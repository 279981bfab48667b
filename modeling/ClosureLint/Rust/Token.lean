import ClosureLint.Rust.Word

/-! The tokens of Rust. Tokens lie in a flat array; an opening delimiter knows the index of the
closing one. A documentation comment is one token, which stands for an attribute. -/

namespace ClosureLint.Rust

inductive Delimiter where
  | parenthesis
  | bracket
  | brace
  deriving DecidableEq, Repr

/-- What kind of literal a token is, as far as the grammar asks. -/
inductive Literal where
  /-- An integer, with or without a suffix that names its type. -/
  | integer (value : Nat) (suffixed : Bool)
  | float (digits : Text)
  /-- A string of characters. -/
  | string
  /-- A string of bytes, a character or a byte. -/
  | quoted
  deriving DecidableEq, Repr

inductive Lexeme where
  /-- A name or keyword. -/
  | word (w : Word)
  /-- A punctuation character; `joint` tells whether another one follows at once. -/
  | punct (c : Char) (joint : Bool)
  /-- A quote with a name. -/
  | lifetime
  /-- A quote whose name is part of the literal behind it. -/
  | quote
  | literal (kind : Literal)
  /-- A documentation comment, about what it stands in or what it stands before. -/
  | doc (inner : Bool)
  | opening (delimiter : Delimiter)
  | closing (delimiter : Delimiter)
  deriving DecidableEq, Repr

/-- A lexeme with the bytes from `lo` to before `hi`. -/
structure Token where
  lexeme : Lexeme
  lo : Nat
  hi : Nat
  /-- The index of the closing delimiter, for an opening one. -/
  partner : Nat
  deriving DecidableEq, Repr

def Lexeme.isDoc : Lexeme → Bool
  | .doc _ => true
  | _ => false

/-- The token in front of an index is no documentation. -/
def FirmAt (tokens : Array Token) (next : Nat) : Prop :=
  ∃ i, next = i + 1 ∧ ∃ token, tokens[i]? = some token ∧ token.lexeme.isDoc = false

/-- The partner of an opening delimiter is no documentation, unless it stands in front of it. -/
def Matched (tokens : Array Token) : Prop :=
  ∀ (i : Nat) (token : Token) (d : Delimiter), tokens[i]? = some token →
    token.lexeme = .opening d → i ≤ token.partner →
      FirmAt tokens (token.partner + 1)

end ClosureLint.Rust
