import ClosureLint.Text

/-! JSON values and their printed form: an entry a line, indented by two spaces a level. -/

namespace ClosureLint

/-- A JSON value, of the kinds that are printed. -/
inductive Json where
  | boolean (b : Bool)
  | number (n : Nat)
  | string (s : String)
  | array (items : List Json)
  | object (entries : List (String × Json))

namespace Json

/-- The digit of a number below sixteen. -/
def hexDigit (n : Nat) : Char := (Nat.digitChar n)

/-- A character inside a string: quotes, backslashes and control characters are escaped. -/
def escape (c : Char) : Text :=
  match c with
  | '"' => ['\\', '"']
  | '\\' => ['\\', '\\']
  | '\n' => ['\\', 'n']
  | '\r' => ['\\', 'r']
  | '\t' => ['\\', 't']
  | '\x08' => ['\\', 'b']
  | '\x0c' => ['\\', 'f']
  | _ =>
    if c.toNat < 0x20 then ['\\', 'u', '0', '0', hexDigit (c.toNat / 16), hexDigit (c.toNat % 16)]
    else [c]

def quote (s : String) : Text := '"' :: s.toList.flatMap escape ++ ['"']

/-- The beginning of a line at a level. -/
def newline (level : Nat) : Text := '\n' :: List.replicate (2 * level) ' '

mutual

def render (level : Nat) : Json → Text
  | .boolean b => (if b then "true" else "false").toList
  | .number n => (toString n).toList
  | .string s => quote s
  | .array [] => ['[', ']']
  | .array (item :: rest) =>
    '[' :: newline (level + 1) ++ render (level + 1) item ++ renderItems (level + 1) rest ++
      newline level ++ [']']
  | .object [] => ['\x7b', '\x7d']
  | .object (entry :: rest) =>
    '\x7b' :: newline (level + 1) ++ renderEntry (level + 1) entry ++
      renderEntries (level + 1) rest ++ newline level ++ ['\x7d']

def renderItems (level : Nat) : List Json → Text
  | [] => []
  | item :: rest => ',' :: newline level ++ render level item ++ renderItems level rest

def renderEntry (level : Nat) : String × Json → Text
  | (key, value) => quote key ++ [':', ' '] ++ render level value

def renderEntries (level : Nat) : List (String × Json) → Text
  | [] => []
  | entry :: rest => ',' :: newline level ++ renderEntry level entry ++ renderEntries level rest

end

end Json

end ClosureLint
