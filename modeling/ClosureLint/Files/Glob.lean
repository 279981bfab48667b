import ClosureLint.Text

/-! Globs: patterns for paths. `?` stands for a byte and `*` for any bytes, in either case without
a slash; `**` between slashes stands for any number of directories; brackets hold a set of bytes;
braces hold alternatives. Braces are multiplied out when a glob is read, so a glob is a list of
sequences, of which one has to match. -/

namespace ClosureLint

inductive GlobAtom where
  | byte (b : UInt8)
  /-- Any byte but a slash. -/
  | any
  /-- Any bytes but slashes. -/
  | star
  /-- A byte of one of the ranges, or of none of them. -/
  | range (negated : Bool) (ranges : List (UInt8 × UInt8))
  /-- Any directories in front of a name. -/
  | leading
  /-- A slash, and any directories behind it. -/
  | between
  /-- A slash and anything behind it. -/
  | trailing
  deriving DecidableEq, Repr

/-- The alternatives of a glob. -/
abbrev Glob := List (List GlobAtom)

inductive GlobFault where
  | danglingEscape
  | unopenedGroup
  | unclosedGroup
  | invalidRange (first last : Char)
  deriving DecidableEq, Repr

def GlobFault.message : GlobFault → String
  | .danglingEscape => "dangling '\\'"
  | .unopenedGroup => "unopened alternate group; missing '\x7b' (maybe escape '\x7d' with '[\x7d]'?)"
  | .unclosedGroup => "unclosed alternate group; missing '\x7d' (maybe escape '\x7b' with '[\x7b]'?)"
  | .invalidRange first last => s!"invalid range; '{first}' > '{last}'"

namespace Glob

/-! ### Matching -/

def slash : UInt8 := 47

/-- Whether some rest is accepted that is reached by passing over bytes of a kind. -/
def anyRest (pass : UInt8 → Bool) (accept : List UInt8 → Bool) : List UInt8 → Bool
  | [] => accept []
  | b :: rest => accept (b :: rest) || (pass b && anyRest pass accept rest)

def anyBehindSlash (accept : List UInt8 → Bool) : List UInt8 → Bool
  | [] => false
  | b :: rest => (b == slash && accept rest) || anyBehindSlash accept rest

def inRanges (ranges : List (UInt8 × UInt8)) (b : UInt8) : Bool :=
  ranges.any fun (first, last) => first ≤ b && b ≤ last

def matchesAtoms : List GlobAtom → List UInt8 → Bool
  | [], bytes => bytes.isEmpty
  | .byte b :: atoms, c :: rest => b == c && matchesAtoms atoms rest
  | .any :: atoms, c :: rest => c != slash && matchesAtoms atoms rest
  | .range negated ranges :: atoms, c :: rest =>
    inRanges ranges c != negated && matchesAtoms atoms rest
  | .star :: atoms, bytes => anyRest (· != slash) (matchesAtoms atoms) bytes
  | .leading :: atoms, bytes => matchesAtoms atoms bytes || anyBehindSlash (matchesAtoms atoms) bytes
  | .between :: atoms, c :: rest =>
    c == slash && (matchesAtoms atoms rest || anyBehindSlash (matchesAtoms atoms) rest)
  | .trailing :: atoms, c :: rest => c == slash && anyRest (fun _ => true) (matchesAtoms atoms) rest
  | _ :: _, [] => false

def matchesBytes (glob : Glob) (bytes : List UInt8) : Bool :=
  glob.any fun atoms => matchesAtoms atoms bytes

/-! ### Reading -/

/-- A part of a sequence that is being read. -/
inductive Piece where
  | atom (a : GlobAtom)
  /-- A group of alternatives. -/
  | choice (options : Glob)

def multiplyOut : List Piece → Glob
  | [] => [[]]
  | .atom a :: pieces => (multiplyOut pieces).map (a :: ·)
  | .choice options :: pieces =>
    options.flatMap fun option => (multiplyOut pieces).map (option ++ ·)

structure Group where
  /-- The pieces in front of the group, the last one first. -/
  before : List Piece
  /-- The branches of the group that are complete. -/
  branches : List Glob

structure Reader where
  /-- The pieces of the sequence or branch that is being read, the last one first. -/
  pieces : List Piece
  /-- The groups that are open, the innermost first. -/
  groups : List Group
  /-- The character before the rest. -/
  last : Option Char
  /-- Opening brackets stand for themselves, since one of them has not been closed. -/
  plainBrackets : Bool
  rest : Text

namespace Reader

def push (r : Reader) (atoms : List GlobAtom) (last : Char) (rest : Text) : Reader :=
  { r with pieces := atoms.reverse.map .atom ++ r.pieces, last := some last, rest := rest }

/-- Adds a character that stands for itself. -/
def pushChar (r : Reader) (c : Char) (rest : Text) : Reader :=
  r.push ((String.utf8EncodeChar c).map .byte) c rest

def branch (r : Reader) : Glob := multiplyOut r.pieces.reverse

/-- The options of a group: empty branches do not count, unless there are no others. -/
def options (branches : List Glob) : Glob :=
  match (branches.filter (· ≠ [[]])).flatten with
  | [] => [[]]
  | options => options

def openGroup (r : Reader) (rest : Text) : Reader :=
  { r with pieces := [], groups := ⟨r.pieces, []⟩ :: r.groups, last := some '\x7b', rest := rest }

/-- Begins the next branch of a group; outside groups a comma stands for itself. -/
def comma (r : Reader) (rest : Text) : Reader :=
  match r.groups with
  | [] => r.pushChar ',' rest
  | group :: outer =>
    { r with
      pieces := []
      groups := { group with branches := group.branches ++ [r.branch] } :: outer
      last := some ','
      rest := rest }

def closeGroup (r : Reader) (rest : Text) : Except GlobFault Reader :=
  match r.groups with
  | [] => .error .unopenedGroup
  | group :: outer =>
    .ok { r with
      pieces := .choice (options (group.branches ++ [r.branch])) :: group.before
      groups := outer
      last := some '\x7d'
      rest := rest }

/-- Two stars behind a slash, up to the next slash or the end: the slash before them gives way to
directories. -/
def directories (r : Reader) (atom : GlobAtom) (last : Char) (rest : Text) : Reader :=
  let pieces := match r.pieces with
    | .atom .leading :: before => .atom .leading :: before
    | .atom .trailing :: before => .atom .trailing :: before
    | _ :: before => .atom atom :: before
    | [] => [.atom atom]
  { r with pieces := pieces, last := some last, rest := rest }

/-- Two stars, where `rest` is what follows them. They stand for directories if they fill the space
between slashes, and for a star each otherwise. -/
def stars (r : Reader) (rest : Text) : Reader :=
  let plain := r.push [.star, .star] '*' rest
  if r.pieces.isEmpty then
    match rest with
    | [] => r.push [.leading] '*' []
    | '/' :: behind => r.push [.leading] '/' behind
    | _ => plain
  else if r.last ≠ some '/' ∧ (r.groups.isEmpty ∨ (r.last ≠ some ',' ∧ r.last ≠ some '\x7b')) then
    plain
  else
    match rest with
    | [] => r.directories .trailing '*' []
    | '/' :: behind => r.directories .between '/' behind
    | c :: _ =>
      if !r.groups.isEmpty && (c == ',' || c == '\x7d') then r.directories .trailing '*' rest
      else plain

/-- The ranges of a set in brackets, the last one first, and what follows the closing bracket, if
there is one. A bracket or a dash that comes first stands for itself, as does a dash that comes
last. -/
def ranges : (first inRange : Bool) → List (Char × Char) → Text →
    Except GlobFault (Option (List (Char × Char) × Text))
  | _, _, _, [] => .ok none
  | first, inRange, found, c :: rest =>
    if c = ']' ∧ !first then .ok (some (if inRange then ('-', '-') :: found else found, rest))
    else if c = '-' ∧ !first ∧ !inRange then ranges false true found rest
    else
      match inRange, found with
      | true, (lo, _) :: before =>
        if c < lo then .error (.invalidRange lo c) else ranges false false ((lo, c) :: before) rest
      | _, _ => ranges false false ((c, c) :: found) rest

/-- The bytes of a range of characters: the range goes from the last byte of the first character
to the first byte of the last one, and their other bytes stand for themselves. -/
def byteRanges : Char × Char → List (UInt8 × UInt8)
  | (first, last) =>
    let lo := String.utf8EncodeChar first
    let hi := String.utf8EncodeChar last
    if first = last then lo.map fun b => (b, b)
    else (lo.dropLast ++ hi.tail).map (fun b => (b, b)) ++ [(lo.getLastD 0, hi.headD 0)]

/-- A set in brackets. If no bracket closes it, the opening one stands for itself, and so do all
others from there on. -/
def brackets (r : Reader) (rest : Text) : Except GlobFault Reader := do
  let (negated, inner) := match rest with
    | '!' :: inner => (true, inner)
    | '^' :: inner => (true, inner)
    | _ => (false, rest)
  match ← ranges true false [] inner with
  | some (found, behind) =>
    .ok (r.push [.range negated (found.reverse.flatMap byteRanges)] ']' behind)
  | none => .ok ({ r with plainBrackets := true }.pushChar '[' rest)

def step (r : Reader) (c : Char) (rest : Text) : Except GlobFault Reader :=
  match c with
  | '?' => .ok (r.push [.any] c rest)
  | '*' =>
    match rest with
    | '*' :: behind => .ok (r.stars behind)
    | _ => .ok (r.push [.star] c rest)
  | '[' => if r.plainBrackets then .ok (r.pushChar c rest) else r.brackets rest
  | '\x7b' => .ok (r.openGroup rest)
  | '\x7d' => r.closeGroup rest
  | ',' => .ok (r.comma rest)
  | '\\' =>
    match rest with
    | [] => .error .danglingEscape
    | escaped :: behind => .ok (r.pushChar escaped behind)
  | _ => .ok (r.pushChar c rest)

/-- Reads on to the end; `fuel` bounds the number of steps. -/
def run : (fuel : Nat) → Reader → Except GlobFault Reader
  | 0, r => .ok r
  | fuel + 1, r =>
    match r.rest with
    | [] => .ok r
    | c :: rest =>
      match r.step c rest with
      | .ok next => run fuel next
      | .error fault => .error fault

end Reader

/-- The glob that a text spells. Two stars alone match everything. -/
def ofText (t : Text) : Except GlobFault Glob := do
  let r ← Reader.run t.length ⟨[], [], none, false, t⟩
  unless r.groups.isEmpty do throw .unclosedGroup
  match r.pieces with
  | [.atom .leading] => .ok [[.leading, .star]]
  | _ => .ok r.branch

end Glob

end ClosureLint
