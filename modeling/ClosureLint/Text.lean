/-! The text of a file as a list of characters, with its two coordinate systems:
byte offsets into the UTF-8 form and printed positions (line and column). A byte
offset is a boundary when some prefix of the text has exactly that many bytes. -/

namespace ClosureLint

/-- The characters of a file. -/
abbrev Text := List Char

namespace Text

def utf8 (t : Text) : List UInt8 := t.flatMap String.utf8EncodeChar

def byteLength (t : Text) : Nat := t.foldr (fun c n => c.utf8Size + n) 0

/-- Whether the byte offset `n` falls between two characters, or at either end. -/
def isBoundary : Text → Nat → Bool
  | _, 0 => true
  | [], _ + 1 => false
  | c :: rest, n + 1 => c.utf8Size ≤ n + 1 && isBoundary rest (n + 1 - c.utf8Size)

@[simp] theorem utf8_nil : utf8 [] = [] := rfl

@[simp] theorem utf8_cons (c : Char) (t : Text) :
    utf8 (c :: t) = String.utf8EncodeChar c ++ utf8 t := rfl

@[simp] theorem utf8_append (s t : Text) : utf8 (s ++ t) = utf8 s ++ utf8 t :=
  List.flatMap_append

@[simp] theorem byteLength_nil : byteLength [] = 0 := rfl

@[simp] theorem byteLength_cons (c : Char) (t : Text) :
    byteLength (c :: t) = c.utf8Size + byteLength t := rfl

@[simp] theorem byteLength_append (s t : Text) :
    byteLength (s ++ t) = byteLength s + byteLength t := by
  induction s with
  | nil => simp
  | cons c s ih => simp [ih, Nat.add_assoc]

theorem length_utf8 (t : Text) : (utf8 t).length = byteLength t := by
  induction t with
  | nil => rfl
  | cons c t ih => simp [ih]

end Text

/-- A printed position: line and column count from 1, the column in characters. -/
structure Position where
  line : Nat
  column : Nat
  deriving DecidableEq, Repr

namespace Position

def origin : Position := ⟨1, 1⟩

def advance (p : Position) (c : Char) : Position :=
  if c = '\n' then ⟨p.line + 1, 1⟩ else ⟨p.line, p.column + 1⟩

/-- The position `n` bytes past `p`; an offset inside a character belongs to the next one,
and one past the end to the end. -/
def after (p : Position) : Text → Nat → Position
  | [], _ => p
  | c :: rest, n => if n = 0 then p else (p.advance c).after rest (n - c.utf8Size)

end Position

def Text.position (t : Text) (offset : Nat) : Position := Position.origin.after t offset

end ClosureLint
