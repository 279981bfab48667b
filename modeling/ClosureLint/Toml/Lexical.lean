import ClosureLint.Text

/-! The lexical level of TOML: blanks, comments, newlines, keys and strings. A reader takes the
text that lies ahead and answers what it has read with the text that is left, or nothing when
the text is not well formed. -/

namespace ClosureLint.Toml

/-- A reader of a value from the front of a text. -/
abbrev Reader (α : Type) := Text → Option (α × Text)

def isBlank (c : Char) : Bool := c == ' ' || c == '\t'

/-- A character that may stand in a comment or inside a string: no control character but the
tab. -/
def isPrintable (c : Char) : Bool := c == '\t' || (0x20 ≤ c.toNat && c.toNat ≠ 0x7f)

def isBareKeyChar (c : Char) : Bool :=
  c.isAlphanum || c == '_' || c == '-'

def skipBlanks (t : Text) : Text := t.dropWhile isBlank

/-- The text after a newline, if it begins with one. -/
def newline? : Text → Option Text
  | '\n' :: rest => some rest
  | '\r' :: '\n' :: rest => some rest
  | _ => none

/-- The text after the comment that begins it, up to the end of the line; a text without a
comment stays as it is. A control character in a comment shows up at the front of what is
left. -/
def skipComment : Text → Text
  | '#' :: rest => rest.dropWhile isPrintable
  | t => t

/-- The text behind the end of a line: blanks and a comment may come first, and a newline or the
end of the text has to follow. -/
def endLine? (t : Text) : Option Text :=
  match skipComment (skipBlanks t) with
  | [] => some []
  | rest => newline? rest

/-- The text behind blanks, comments and newlines; `fuel` bounds the number of lines. -/
def skipLinesFrom : Nat → Text → Text
  | 0, t => t
  | fuel + 1, t =>
    let rest := skipComment (skipBlanks t)
    match newline? rest with
    | some next => skipLinesFrom fuel next
    | none => rest

def skipLines (t : Text) : Text := skipLinesFrom t.length t

/-! ### Strings -/

def hexDigit? (c : Char) : Option Nat :=
  if '0' ≤ c ∧ c ≤ '9' then some (c.toNat - 48)
  else if 'a' ≤ c ∧ c ≤ 'f' then some (c.toNat - 87)
  else if 'A' ≤ c ∧ c ≤ 'F' then some (c.toNat - 55)
  else none

/-- The number that `digits` hexadecimal digits stand for, continued from `acc`. -/
def hexNumber (acc : Nat) : Nat → Reader Nat
  | 0, t => some (acc, t)
  | _ + 1, [] => none
  | digits + 1, c :: rest => do
    let d ← hexDigit? c
    hexNumber (16 * acc + d) digits rest

def hexChar (digits : Nat) : Reader Char := fun t => do
  let (code, rest) ← hexNumber 0 digits t
  if code.isValidChar then some (Char.ofNat code, rest) else none

/-- The character that an escape stands for, from the character behind the backslash on. -/
def escaped : Reader Char
  | 'b' :: rest => some ('\x08', rest)
  | 't' :: rest => some ('\t', rest)
  | 'n' :: rest => some ('\n', rest)
  | 'f' :: rest => some ('\x0c', rest)
  | 'r' :: rest => some ('\r', rest)
  | 'e' :: rest => some ('\x1b', rest)
  | '"' :: rest => some ('"', rest)
  | '\\' :: rest => some ('\\', rest)
  | 'x' :: rest => hexChar 2 rest
  | 'u' :: rest => hexChar 4 rest
  | 'U' :: rest => hexChar 8 rest
  | _ => none

/-- The rest of a one-line string in double quotes; `acc` holds what has been read, latest
first. -/
def basicFrom : Nat → List Char → Reader String
  | 0, _, _ => none
  | fuel + 1, acc, t =>
    match t with
    | '"' :: rest => some (String.ofList acc.reverse, rest)
    | '\\' :: rest => do
      let (c, rest) ← escaped rest
      basicFrom fuel (c :: acc) rest
    | c :: rest => if isPrintable c then basicFrom fuel (c :: acc) rest else none
    | [] => none

/-- The rest of a one-line string in single quotes, which knows no escapes. -/
def literalFrom (acc : List Char) : Reader String
  | [] => none
  | c :: rest =>
    if c == '\'' then some (String.ofList acc.reverse, rest)
    else if isPrintable c then literalFrom (c :: acc) rest
    else none

/-- The end of a string of several lines, on a run of its quote `q`: three quotes end it, and up
to two more before those are content. -/
def closeTriple (q : Char) (acc : List Char) (t : Text) : Option (String × Text) :=
  let run := (t.takeWhile (· == q)).length
  if 3 ≤ run then
    let content := min (run - 3) 2
    some (String.ofList (List.replicate content q ++ acc).reverse, t.drop (content + 3))
  else none

/-- The text behind blanks and newlines; `fuel` bounds the number of lines. -/
def skipSpaceFrom : Nat → Text → Text
  | 0, t => t
  | fuel + 1, t =>
    match newline? (skipBlanks t) with
    | some next => skipSpaceFrom fuel next
    | none => skipBlanks t

/-- The text behind a newline that a backslash escapes, together with all the blanks and newlines
after it. -/
def escapedNewline? (t : Text) : Option Text :=
  (newline? (skipBlanks t)).map fun rest => skipSpaceFrom (rest.length + 1) rest

/-- The rest of a string of several lines in double quotes. -/
def basicLinesFrom : Nat → List Char → Reader String
  | 0, _, _ => none
  | fuel + 1, acc, t =>
    match t with
    | [] => none
    | '"' :: rest =>
      match closeTriple '"' acc t with
      | some done => some done
      | none => basicLinesFrom fuel ('"' :: acc) rest
    | '\\' :: rest =>
      match escapedNewline? rest with
      | some rest => basicLinesFrom fuel acc rest
      | none => do
        let (c, rest) ← escaped rest
        basicLinesFrom fuel (c :: acc) rest
    | c :: rest =>
      match newline? t with
      | some next => basicLinesFrom fuel ('\n' :: acc) next
      | none => if isPrintable c then basicLinesFrom fuel (c :: acc) rest else none

def literalLinesFrom : Nat → List Char → Reader String
  | 0, _, _ => none
  | fuel + 1, acc, t =>
    match t with
    | [] => none
    | '\'' :: rest =>
      match closeTriple '\'' acc t with
      | some done => some done
      | none => literalLinesFrom fuel ('\'' :: acc) rest
    | c :: rest =>
      match newline? t with
      | some next => literalLinesFrom fuel ('\n' :: acc) next
      | none => if isPrintable c then literalLinesFrom fuel (c :: acc) rest else none

def dropOpeningNewline (t : Text) : Text := (newline? t).getD t

/-- A string of one line, from its opening quote on. -/
def lineString : Reader String
  | '"' :: rest => basicFrom (rest.length + 1) [] rest
  | '\'' :: rest => literalFrom [] rest
  | _ => none

def string : Reader String
  | '"' :: '"' :: '"' :: rest =>
    basicLinesFrom (rest.length + 1) [] (dropOpeningNewline rest)
  | '\'' :: '\'' :: '\'' :: rest =>
    literalLinesFrom (rest.length + 1) [] (dropOpeningNewline rest)
  | t => lineString t

/-! ### Keys -/

/-- One part of a key: bare, or a string of one line. -/
def keyPart : Reader String := fun t =>
  match t.takeWhile isBareKeyChar with
  | [] => lineString t
  | name => some (String.ofList name, t.dropWhile isBareKeyChar)

/-- The parts of a key, joined by points that blanks may surround. -/
def keyFrom : Nat → Reader (List String)
  | 0, _ => none
  | fuel + 1, t => do
    let (part, rest) ← keyPart (skipBlanks t)
    match skipBlanks rest with
    | '.' :: more =>
      let (parts, rest) ← keyFrom fuel more
      some (part :: parts, rest)
    | rest => some ([part], rest)

def key : Reader (List String) := fun t => keyFrom (t.length + 1) t

end ClosureLint.Toml
