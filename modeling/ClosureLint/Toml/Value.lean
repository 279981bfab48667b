import ClosureLint.WordSize

/-! The value tree of a TOML document. The contents of floating-point numbers and of dates and
times are checked when a document is read, but not kept. -/

namespace ClosureLint.Toml

/-- A TOML value. The keys of a table are distinct. -/
inductive Value where
  | text (content : String)
  | integer (n : Int)
  | float
  /-- A date, a time, or both. -/
  | moment
  | boolean (b : Bool)
  | array (items : List Value)
  | table (entries : List (String × Value))
  deriving Repr

abbrev Entries := List (String × Value)

def Entries.get? (entries : Entries) (key : String) : Option Value := entries.lookup key

/-! ### Values of a given type -/

namespace Value

def boolean? : Value → Option Bool
  | .boolean b => some b
  | _ => none

/-- An integer of 64 bits with a sign. -/
def integer? : Value → Option Int
  | .integer n => if fitsSigned 64 n then some n else none
  | _ => none

def integers? : Value → Option (List Int)
  | .array items => items.mapM integer?
  | _ => none

mutual

/-- Whether a value may stand under a key that nobody asks for: every integer in it fits 128
bits, with a sign or without one. -/
def isPlain : Value → Bool
  | .integer n => fitsSigned 128 n || (0 ≤ n && n < wordBound 128)
  | .array items => allPlain items
  | .table entries => entriesPlain entries
  | .text _ | .float | .moment | .boolean _ => true

def allPlain : List Value → Bool
  | [] => true
  | item :: rest => item.isPlain && allPlain rest

def entriesPlain : List (String × Value) → Bool
  | [] => true
  | (_, value) :: rest => value.isPlain && entriesPlain rest

end

end Value

namespace Entries

/-- The value of a key that may be absent, read by `read?`; nothing if it is there and has the
wrong type. -/
def optional? (entries : Entries) (key : String) (read? : Value → Option α) :
    Option (Option α) :=
  match entries.get? key with
  | none => some none
  | some value => (read? value).map some

/-- Whether the entries other than those of the given keys are plain. -/
def restPlain (entries : Entries) (known : List String) : Bool :=
  entries.all fun (key, value) => known.contains key || value.isPlain

end Entries

end ClosureLint.Toml
