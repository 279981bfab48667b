import ClosureLint.Rust.Character
import ClosureLint.Rust.Token

/-! Words and literals of Rust. A measure answers how many characters the lexeme at the front of a
text has, or nothing when no such lexeme is there. -/

namespace ClosureLint.Rust

/-- How many characters the lexeme at the front of a text has. -/
abbrev Measure := Text → Option Nat

/-! ### Words -/

def wordWidth : Text → Nat
  | [] => 0
  | c :: rest => if isWordStart c then 1 + (rest.takeWhile isWordPart).length else 0

/-- A name without `r#`. -/
def plainWord? : Measure := fun t =>
  match wordWidth t with
  | 0 => none
  | n => some n

/-- The names that have no raw form. -/
def neverRaw : List Text :=
  [['_'], ['s', 'u', 'p', 'e', 'r'], ['s', 'e', 'l', 'f'], ['S', 'e', 'l', 'f'],
    ['c', 'r', 'a', 't', 'e']]

def anyWord? : Measure
  | 'r' :: '#' :: rest => do
    let n ← plainWord? rest
    if neverRaw.contains (rest.take n) then none else some (n + 2)
  | t => plainWord? t

/-- The openings of literals, which are not to be taken for words. -/
def literalOpenings : List Text :=
  [['r', '"'], ['r', '#', '"'], ['r', '#', '#'], ['b', '"'], ['b', '\''], ['b', 'r', '"'],
    ['b', 'r', '#'], ['c', '"'], ['c', 'r', '"'], ['c', 'r', '#']]

/-- A name where a token may begin. -/
def wordLexeme? : Measure := fun t =>
  if literalOpenings.any (·.isPrefixOf t) then none else anyWord? t

/-! ### Strings and characters -/

inductive StringForm where
  /-- Characters. -/
  | text
  /-- Bytes, written in ASCII. -/
  | bytes
  /-- Characters other than NUL. -/
  | c
  deriving DecidableEq, Repr

/-- Whether a character may stand for itself. -/
def StringForm.allows : StringForm → Char → Bool
  | .text, _ => true
  | .bytes, ch => ch.toNat < 0x80
  | .c, ch => ch ≠ '\x00'

def isOctal (c : Char) : Bool := '0' ≤ c && c ≤ '7'

def hexValue? (c : Char) : Option Nat :=
  if c.isDigit then some (c.toNat - 48)
  else if 'a' ≤ c ∧ c ≤ 'f' then some (c.toNat - 87)
  else if 'A' ≤ c ∧ c ≤ 'F' then some (c.toNat - 55)
  else none

def isHex (c : Char) : Bool := (hexValue? c).isSome

/-- The value of the digits of a braced escape and the characters up to the closing brace: at most
six digits, and underscores behind the first one. -/
def bracedDigits : (digits : Nat) → (value : Nat) → (width : Nat) → Text → Option (Nat × Nat)
  | _, _, _, [] => none
  | digits, value, width, c :: rest =>
    match hexValue? c with
    | some d =>
      if digits = 6 then none else bracedDigits (digits + 1) (16 * value + d) (width + 1) rest
    | none =>
      if digits = 0 then none
      else if c == '_' then bracedDigits digits value (width + 1) rest
      else if c == '\x7d' then some (value, width + 1)
      else none

def bracedCode? : Text → Option (Nat × Nat)
  | '\x7b' :: rest => do
    let (value, width) ← bracedDigits 0 0 1 rest
    if value.isValidChar then some (value, width) else none
  | _ => none

/-- The letters and marks that stand for one character behind a backslash. -/
def isSimpleEscape (c : Char) : Bool :=
  c == 'n' || c == 'r' || c == 't' || c == '\\' || c == '\'' || c == '"'

/-- The characters behind the backslash and the character `c` that belong to the same escape. -/
def escapeTail? (form : StringForm) (c : Char) (rest : Text) : Option Nat :=
  if isSimpleEscape c then some 0
  else match form, c, rest with
    | .text, '0', _ => some 0
    | .bytes, '0', _ => some 0
    | .text, 'x', a :: b :: _ => if isOctal a && isHex b then some 2 else none
    | .bytes, 'x', a :: b :: _ => if isHex a && isHex b then some 2 else none
    | .c, 'x', a :: b :: _ =>
      if isHex a && isHex b && !(a == '0' && b == '0') then some 2 else none
    | .text, 'u', rest => (bracedCode? rest).map (·.2)
    | .c, 'u', rest =>
      match bracedCode? rest with
      | some (value, width) => if value = 0 then none else some width
      | none => none
    | _, _, _ => none

/-- The blanks that a backslash at the end of a line, with the newline character `last`, takes out
of a string. A carriage return has to be followed by a newline, and the string has to go on. -/
def continuation? : (last : Char) → (width : Nat) → Measure
  | _, _, [] => none
  | last, width, c :: rest =>
    if last == '\r' then
      if c == '\n' then continuation? '\n' (width + 1) rest else none
    else if c == ' ' || c == '\t' || c == '\n' || c == '\r' then
      continuation? c (width + 1) rest
    else some width

def stringRest (form : StringForm) : (fuel : Nat) → (width : Nat) → Measure
  | 0, _, _ => none
  | fuel + 1, width, t =>
    match t with
    | [] => none
    | '"' :: _ => some (width + 1)
    | '\r' :: '\n' :: rest => stringRest form fuel (width + 2) rest
    | '\r' :: _ => none
    | '\\' :: c :: rest => do
      let n ← if c == '\n' || c == '\r' then continuation? c 0 rest else escapeTail? form c rest
      stringRest form fuel (width + 2 + n) (rest.drop n)
    | '\\' :: [] => none
    | c :: rest => if form.allows c then stringRest form fuel (width + 1) rest else none

def rawRest (form : StringForm) (hashes : Nat) : (width : Nat) → Measure
  | _, [] => none
  | width, '\r' :: '\n' :: rest => rawRest form hashes (width + 2) rest
  | width, c :: rest =>
    if c == '"' && (List.replicate hashes '#').isPrefixOf rest then some (width + 1 + hashes)
    else if c == '\r' || !form.allows c then none
    else rawRest form hashes (width + 1) rest

/-- The most hashes that a raw string may have. -/
def maxHashes : Nat := 255

def rawString? (form : StringForm) : Measure := fun t =>
  let hashes := (t.takeWhile (· == '#')).length
  match t.drop hashes with
  | '"' :: rest => if hashes ≤ maxHashes then rawRest form hashes (hashes + 1) rest else none
  | _ => none

/-- The characters of a character or byte literal behind its opening quote. -/
def characterRest (form : StringForm) : Measure
  | '\\' :: c :: rest => do
    let n ← escapeTail? form c rest
    if rest[n]? = some '\'' then some (n + 3) else none
  | c :: '\'' :: _ => if form.allows c then some 2 else none
  | _ => none

def quoted? : Measure
  | '"' :: rest => stringRest .text (rest.length + 1) 1 rest
  | 'b' :: '"' :: rest => stringRest .bytes (rest.length + 1) 2 rest
  | 'b' :: 'r' :: rest => (rawString? .bytes rest).map (· + 2)
  | 'c' :: '"' :: rest => stringRest .c (rest.length + 1) 2 rest
  | 'c' :: 'r' :: rest => (rawString? .c rest).map (· + 2)
  | 'r' :: rest => (rawString? .text rest).map (· + 1)
  | 'b' :: '\'' :: rest => (characterRest .bytes rest).map (· + 2)
  | '\'' :: rest => (characterRest .text rest).map (· + 1)
  | _ => none

/-! ### Numbers -/

/-- The digits behind an `e`, with at most one sign in front of the first of them; nothing if
there is no digit. -/
def exponentRest : (signed : Bool) → (valued : Bool) → (width : Nat) → Measure
  | _, valued, width, [] => if valued then some width else none
  | signed, valued, width, c :: rest =>
    if (c == '+' || c == '-') && !valued then
      if signed then none else exponentRest true valued (width + 1) rest
    else if c.isDigit then exponentRest signed true (width + 1) rest
    else if c == '_' then exponentRest signed valued (width + 1) rest
    else if valued then some width
    else none

/-- A point that belongs to a number: what follows is neither another point nor a word. -/
def isFractionPoint : Text → Bool
  | '.' :: [] => true
  | '.' :: c :: _ => c ≠ '.' && !isWordStart c
  | _ => false

/-- Digits with a fraction or an exponent. An `e` without an exponent ends the number if there is
a fraction. -/
def floatDigits? : Measure := fun t =>
  if (t.head?.any Char.isDigit) then
    let isPart := fun (c : Char) => c.isDigit || c == '_'
    let whole := (t.takeWhile isPart).length
    let rest := t.drop whole
    let pointed := isFractionPoint rest
    if rest.head? = some '.' && !pointed then none
    else
      let places := if pointed then 1 + ((rest.drop 1).takeWhile isPart).length else 0
      let width := whole + places
      match t.drop width with
      | c :: more =>
        if c == 'e' || c == 'E' then
          match exponentRest false false 1 more with
          | some n => some (width + n)
          | none => if pointed then some width else none
        else if pointed then some width
        else none
      | [] => if pointed then some width else none
  else none

/-- The base that a number announces, and the number of characters for that. -/
def base : Text → Nat × Nat
  | '0' :: 'x' :: _ => (16, 2)
  | '0' :: 'o' :: _ => (8, 2)
  | '0' :: 'b' :: _ => (2, 2)
  | _ => (10, 0)

/-- The digits of an integer in a base, up to the first other character; a decimal digit beyond
the base spoils the number. -/
def integerDigits (base : Nat) : (empty : Bool) → (width : Nat) → Measure
  | empty, width, [] => if empty then none else some width
  | empty, width, c :: rest =>
    if c == '_' then
      if empty && base = 10 then none else integerDigits base empty (width + 1) rest
    else match hexValue? c with
      | some d =>
        if d < base then integerDigits base false (width + 1) rest
        else if c.isDigit then none
        else if empty then none
        else some width
      | none => if empty then none else some width

def integer? : Measure := fun t =>
  let (base, n) := base t
  (integerDigits base true 0 (t.drop n)).map (n + ·)

/-- A number with its suffix, where no word goes on. -/
def suffixed? (digits? : Measure) : Measure := fun t => do
  let n ← digits? t
  let width := n + wordWidth (t.drop n)
  if (t.drop width).head?.any isWordPart then none else some width

def isSuffix (t : Text) : Bool := t.isEmpty || wordWidth t == t.length

/-- What follows the `e` of a decimal number: whether it makes an exponent, so that the number is
no integer. -/
def isExponent : (valued : Bool) → Text → Bool
  | valued, [] => valued
  | valued, c :: rest =>
    if c == '_' then isExponent valued rest
    else if c == '-' || c == '+' then true
    else if c.isDigit then isExponent true rest
    else valued && isSuffix (c :: rest)

def integerValue? (base : Nat) : (empty : Bool) → (value : Nat) → Text → Option (Nat × Text)
  | empty, value, [] => if empty then none else some (value, [])
  | empty, value, c :: rest =>
    let stop := if empty || !isSuffix (c :: rest) then none else some (value, c :: rest)
    if c == '_' then integerValue? base empty value rest
    else if base = 10 && c == '.' then none
    else if base = 10 && (c == 'e' || c == 'E') then
      if isExponent false rest then none else stop
    else match hexValue? c with
      | some d =>
        if base ≤ 10 && !c.isDigit then stop
        else if d < base then integerValue? base false (base * value + d) rest
        else none
      | none => stop

/-- What kind of literal the characters of a number are. -/
def numberKind (chars : Text) : Literal :=
  let (base, n) := base chars
  match integerValue? base true 0 (chars.drop n) with
  | some (value, suffix) => .integer value (!suffix.isEmpty)
  | none => .float chars

/-- A literal that only error recovery writes. -/
def errorMark : Text := ['(', '/', '*', 'E', 'R', 'R', 'O', 'R', '*', '/', ')']

/-- What kind of literal one with quotes is. -/
def quotedKind : Text → Literal
  | '"' :: _ => .string
  | 'r' :: _ => .string
  | _ => .quoted

/-- The literal at the front of a text and its number of characters. -/
def literal? (t : Text) : Option (Literal × Nat) :=
  match quoted? t with
  | some n => some (quotedKind t, n + wordWidth (t.drop n))
  | none =>
    match suffixed? floatDigits? t with
    | some n => some (numberKind (t.take n), n)
    | none => (suffixed? integer? t).map fun n => (numberKind (t.take n), n)

end ClosureLint.Rust
