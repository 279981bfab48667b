import ClosureLint.Toml.Lexical
import ClosureLint.Toml.Value

/-! The scalar values of TOML that are written without quotes: numbers, truth values, dates and
times. The characters of such a value are cut out first and then classified as a whole. -/

namespace ClosureLint.Toml

def isScalarChar (c : Char) : Bool :=
  c.isAlphanum || c == '_' || c == '-' || c == '+' || c == '.' || c == ':'

/-! ### Numbers -/

/-- The digits of a number, without the underscores; underscores stand between two digits
only. -/
def digits? (isDigit : Char → Bool) : Text → Option Text
  | [] => none
  | [c] => if isDigit c then some [c] else none
  | c :: '_' :: rest => if isDigit c then (digits? isDigit rest).map (c :: ·) else none
  | c :: d :: rest => if isDigit c then (digits? isDigit (d :: rest)).map (c :: ·) else none

def number (base : Nat) (digits : Text) : Nat :=
  digits.foldl (fun acc c => base * acc + (hexDigit? c).getD 0) 0

/-- A natural number in decimal digits; only zero itself begins with a zero. -/
def decimal? (t : Text) : Option Nat := do
  let ds ← digits? Char.isDigit t
  if ds.length > 1 ∧ ds.head? = some '0' then none else some (number 10 ds)

/-- The sign of a number and what follows it. -/
def signed : Text → Bool × Text
  | '-' :: rest => (true, rest)
  | '+' :: rest => (false, rest)
  | t => (false, t)

/-- An integer: decimal with an optional sign, or of another base without one. -/
def integer? : Text → Option Int
  | '0' :: 'x' :: rest => (digits? (fun c => (hexDigit? c).isSome) rest).map (number 16 ·)
  | '0' :: 'o' :: rest => (digits? (fun c => '0' ≤ c && c ≤ '7') rest).map (number 8 ·)
  | '0' :: 'b' :: rest => (digits? (fun c => c == '0' || c == '1') rest).map (number 2 ·)
  | t => do
    let (negative, rest) := signed t
    let n ← decimal? rest
    some (if negative then -(n : Int) else n)

/-- Whether a number `m * 10 ^ e` with `m` of `width` digits is beyond the largest finite double:
it is at least two to the power of 1024, less two to the power of 970. -/
def overflows (m width : Nat) (e : Int) : Bool :=
  let bound := wordBound 1024 - wordBound 970
  if m = 0 then false
  else if e + width < 300 then false
  else if e > 400 then true
  else if 0 ≤ e then bound ≤ m * Nat.pow 10 e.toNat
  else bound * Nat.pow 10 (-e).toNat ≤ m

/-- Digits and underscores, and what follows them. -/
def digitRun (t : Text) : Text × Text := t.span fun c => c.isDigit || c == '_'

/-- The fraction of a number, if there is a point, and what follows it. -/
def fraction : Text → Option Text × Text
  | '.' :: rest => let (run, rest) := digitRun rest; (some run, rest)
  | t => (none, t)

def exponent? : Text → Option (Option Int)
  | [] => some none
  | c :: rest =>
    if c == 'e' || c == 'E' then do
      let (negative, rest) := signed rest
      let n := number 10 (← digits? Char.isDigit rest)
      some (some (if negative then -(n : Int) else n))
    else none

/-- Whether the text is a floating-point number within range: it has a fraction, an exponent or
both, or is one of the named values. -/
def isFloat (t : Text) : Bool :=
  let (_, rest) := signed t
  if rest = ['i', 'n', 'f'] ∨ rest = ['n', 'a', 'n'] then true
  else
    let (whole, rest) := digitRun rest
    let (fraction?, rest) := fraction rest
    match decimal? whole, digits? Char.isDigit whole, exponent? rest with
    | some _, some digits, some power =>
      match fraction? with
      | some run =>
        match digits? Char.isDigit run with
        | some places =>
          let all := digits ++ places
          !overflows (number 10 all) all.length (power.getD 0 - places.length)
        | none => false
      | none =>
        match power with
        | some e => !overflows (number 10 digits) digits.length e
        | none => false
    | _, _, _ => false

/-! ### Dates and times -/

def fixedDigits (count : Nat) : Reader Nat := fun t =>
  let ds := t.take count
  if ds.length = count ∧ ds.all Char.isDigit then some (number 10 ds, t.drop count) else none

def expectChar (c : Char) : Text → Option Text
  | d :: rest => if c = d then some rest else none
  | [] => none

def isLeapYear (year : Nat) : Bool :=
  year % 4 = 0 && (year % 100 ≠ 0 || year % 400 = 0)

def daysInMonth (year month : Nat) : Nat :=
  if month = 2 then (if isLeapYear year then 29 else 28)
  else if month = 4 ∨ month = 6 ∨ month = 9 ∨ month = 11 then 30
  else 31

/-- The text behind a date of the calendar. -/
def date? (t : Text) : Option Text := do
  let (year, t) ← fixedDigits 4 t
  let (month, t) ← fixedDigits 2 (← expectChar '-' t)
  let (day, t) ← fixedDigits 2 (← expectChar '-' t)
  if 1 ≤ month ∧ month ≤ 12 ∧ 1 ≤ day ∧ day ≤ daysInMonth year month then some t else none

/-- The text behind a time of day; seconds may be left out, and may have a fraction. -/
def time? (t : Text) : Option Text := do
  let (hour, t) ← fixedDigits 2 t
  let (minute, t) ← fixedDigits 2 (← expectChar ':' t)
  if hour ≤ 23 ∧ minute ≤ 59 then
    match t with
    | ':' :: more =>
      let (second, t) ← fixedDigits 2 more
      if second ≤ 60 then
        match t with
        | '.' :: more =>
          match more.takeWhile Char.isDigit with
          | [] => none
          | _ => some (more.dropWhile Char.isDigit)
        | t => some t
      else none
    | t => some t
  else none

/-- The text behind an offset from universal time, which may be absent. -/
def offset? (t : Text) : Option Text :=
  match t with
  | 'Z' :: rest => some rest
  | 'z' :: rest => some rest
  | c :: rest =>
    if c == '+' || c == '-' then do
      let (hours, rest) ← fixedDigits 2 rest
      let (minutes, rest) ← fixedDigits 2 (← expectChar ':' rest)
      if hours * 60 + minutes ≤ 24 * 60 then some rest else none
    else some t
  | [] => some []

/-- Whether the text is a date, a time of day, or a date with a time and perhaps an offset. -/
def isMoment (t : Text) : Bool :=
  match date? t with
  | some [] => true
  | some (c :: rest) =>
    (c == 'T' || c == 't' || c == ' ') && ((time? rest).bind offset?) == some []
  | none => time? t == some []

/-- The characters of the unquoted value at the front of a text. A date takes in the time that
one space sets off. -/
def scalarChars (t : Text) : Text × Text :=
  let first := t.takeWhile isScalarChar
  let rest := t.dropWhile isScalarChar
  match date? first, rest with
  | some [], ' ' :: more =>
    if more.head?.any Char.isDigit then
      (first ++ ' ' :: more.takeWhile isScalarChar, more.dropWhile isScalarChar)
    else (first, rest)
  | _, _ => (first, rest)

def classify (t : Text) : Option Value :=
  if t = ['t', 'r', 'u', 'e'] then some (.boolean true)
  else if t = ['f', 'a', 'l', 's', 'e'] then some (.boolean false)
  else match integer? t with
    | some n => some (.integer n)
    | none => if isFloat t then some .float else if isMoment t then some .moment else none

def scalar : Reader Value := fun t =>
  let (chars, rest) := scalarChars t
  (classify chars).map (·, rest)

end ClosureLint.Toml
