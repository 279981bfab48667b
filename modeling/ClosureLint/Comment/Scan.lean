import ClosureLint.Comment.Style

/-! One forward pass over the bytes of a text that tells code from comments. The pass takes
turns; a turn looks at the byte it stands on, the bytes before and after it, and the mode, and
consumes one or more bytes. A line is a code line when some turn on it consumes code, that is, a
turn outside comments whose first byte is not blank. Line numbers advance only on turns that
stand on a newline, so a turn that consumes a newline in passing does not advance them. -/

namespace ClosureLint.Comment

/-- What the pass is inside of. -/
inductive Mode where
  | code
  | lineComment
  | block (depth : Nat)
  | quoted
  | rawQuoted (hashes : Nat)
  deriving DecidableEq, Repr

structure Step where
  /-- The number of bytes consumed. -/
  width : Nat
  /-- The mode of the next turn. -/
  next : Mode
  /-- The turn makes its line a code line. -/
  marks : Bool
  /-- The turn stands on a newline, so the next line begins. -/
  breaks : Bool
  deriving DecidableEq, Repr

/-- Space, tab, newline, form feed and carriage return; the vertical tab is not among them. -/
def isBlank (b : UInt8) : Bool :=
  b == 0x20 || b == 0x09 || b == 0x0a || b == 0x0c || b == 0x0d

def isWord (b : UInt8) : Bool :=
  (0x30 ≤ b && b ≤ 0x39) || (0x41 ≤ b && b ≤ 0x5a) || (0x61 ≤ b && b ≤ 0x7a) || b == 0x5f

/-- Whether `bytes` begin with the marker; an empty marker never matches. -/
def occurs (marker : Text) (bytes : List UInt8) : Bool :=
  !marker.isEmpty && marker.utf8.isPrefixOf bytes

def markerWidth (marker : Text) : Nat := marker.byteLength

/-- Whether an `r` may open a raw string after the bytes `behind` (nearest first): it starts a
word, or follows a `b` that does. -/
def mayOpenRaw (behind : List UInt8) : Bool :=
  match behind with
  | [] => true
  | 0x62 :: before => before.head?.all (!isWord ·)
  | previous :: _ => !isWord previous

def rawHashes? (behind : List UInt8) (b : UInt8) (rest : List UInt8) : Option Nat :=
  if b == 0x72 && mayOpenRaw behind then
    let hashes := (rest.takeWhile (· == 0x23)).length
    if rest[hashes]? = some 0x22 then some hashes else none
  else none

/-- The number of bytes of the character that the byte begins. -/
def charWidth (lead : UInt8) : Nat :=
  if lead < 0xc0 then 1 else if lead < 0xe0 then 2 else if lead < 0xf0 then 3 else 4

/-- The furthest a closing quote is looked for behind an escaped character. -/
def escapeReach : Nat := 10

/-- The width of the character literal that the byte `b` opens. -/
def charLiteralWidth? (b : UInt8) (rest : List UInt8) : Option Nat :=
  if b == 0x27 then
    match rest with
    | [] => none
    | 0x5c :: _ :: tail => ((tail.take escapeReach).findIdx? (· == 0x27)).map (· + 4)
    | 0x5c :: [] => none
    | 0x27 :: _ => none
    | 0x0a :: _ => none
    | lead :: _ =>
      let width := charWidth lead
      if rest[width]? = some 0x27 then some (width + 2) else none
  else none

def closeBlock (depth : Nat) : Mode :=
  if depth ≤ 1 then .code else .block (depth - 1)

def stepBlock (style : CommentStyle) (depth : Nat) (bytes : List UInt8) : Step :=
  if style.nestedBlocks && occurs style.blockOpen bytes then
    ⟨markerWidth style.blockOpen, .block (depth + 1), false, false⟩
  else if occurs style.blockClose bytes then
    ⟨markerWidth style.blockClose, closeBlock depth, false, false⟩
  else ⟨1, .block depth, false, false⟩

def stepQuoted (b : UInt8) (rest : List UInt8) : Step :=
  if b == 0x5c && rest.head?.any (· != 0x0a) then ⟨2, .quoted, true, false⟩
  else if b == 0x22 then ⟨1, .code, true, false⟩
  else ⟨1, .quoted, !isBlank b, false⟩

def stepRaw (hashes : Nat) (b : UInt8) (rest : List UInt8) : Step :=
  if b == 0x22 && (List.replicate hashes (0x23 : UInt8)).isPrefixOf rest then
    ⟨1 + hashes, .code, true, false⟩
  else ⟨1, .rawQuoted hashes, !isBlank b, false⟩

def stepCode (style : CommentStyle) (behind : List UInt8) (b : UInt8) (rest : List UInt8) : Step :=
  if occurs style.line (b :: rest) then ⟨markerWidth style.line, .lineComment, false, false⟩
  else if occurs style.blockOpen (b :: rest) then
    ⟨markerWidth style.blockOpen, .block 1, false, false⟩
  else match (if style.rawStrings then rawHashes? behind b rest else none) with
    | some hashes => ⟨hashes + 2, .rawQuoted hashes, true, false⟩
    | none =>
      if b == 0x22 then ⟨1, .quoted, true, false⟩
      else match (if style.charLiterals then charLiteralWidth? b rest else none) with
        | some width => ⟨width, .code, true, false⟩
        | none => ⟨1, .code, !isBlank b, false⟩

/-- One turn on the byte `b`, with the bytes `behind` it (nearest first) and the `rest` after it.
A newline ends a line comment and leaves every other mode as it is. -/
def step (style : CommentStyle) (mode : Mode) (behind : List UInt8) (b : UInt8)
    (rest : List UInt8) : Step :=
  if b == 0x0a then ⟨1, if mode = .lineComment then .code else mode, false, true⟩
  else match mode with
    | .lineComment => ⟨1, .lineComment, false, false⟩
    | .block depth => stepBlock style depth (b :: rest)
    | .quoted => stepQuoted b rest
    | .rawQuoted hashes => stepRaw hashes b rest
    | .code => stepCode style behind b rest

structure State where
  mode : Mode
  /-- The line that turns mark now. -/
  line : Nat
  offset : Nat
  /-- The bytes before `offset`, nearest first. -/
  behind : List UInt8
  /-- The bytes that the last turn consumed and that still lie ahead. -/
  owed : Nat
  deriving DecidableEq, Repr

def State.start : State := ⟨.code, 0, 0, [], 0⟩

/-- The state one byte further on, inside the bytes of the last turn. -/
def State.pass (s : State) (b : UInt8) : State :=
  { s with offset := s.offset + 1, behind := b :: s.behind, owed := s.owed - 1 }

/-- The state one byte further on, after a turn has begun on `b`. -/
def State.take (s : State) (b : UInt8) (d : Step) : State where
  mode := d.next
  line := if d.breaks then s.line + 1 else s.line
  offset := s.offset + 1
  behind := b :: s.behind
  owed := d.width - 1

structure Turn where
  state : State
  step : Step
  deriving DecidableEq, Repr

/-- The turns from a state on, behind those in `done` (latest first). -/
def turnsOnto (style : CommentStyle) (done : List Turn) : State → List UInt8 → List Turn
  | _, [] => done.reverse
  | s, b :: rest =>
    if s.owed = 0 then
      let d := step style s.mode s.behind b rest
      turnsOnto style (⟨s, d⟩ :: done) (s.take b d) rest
    else turnsOnto style done (s.pass b) rest

def turnsFrom (style : CommentStyle) (s : State) (bytes : List UInt8) : List Turn :=
  turnsOnto style [] s bytes

theorem turnsOnto_eq (style : CommentStyle) (done : List Turn) (s : State) (bytes : List UInt8) :
    turnsOnto style done s bytes = done.reverse ++ turnsFrom style s bytes := by
  induction bytes generalizing done s with
  | nil => simp [turnsFrom, turnsOnto]
  | cons b rest ih =>
    simp only [turnsFrom, turnsOnto]
    split
    · rw [ih, ih [_]]; simp
    · rw [ih, ih []]; simp

@[simp] theorem turnsFrom_nil (style : CommentStyle) (s : State) : turnsFrom style s [] = [] := rfl

theorem turnsFrom_cons (style : CommentStyle) (s : State) (b : UInt8) (rest : List UInt8) :
    turnsFrom style s (b :: rest) =
      if s.owed = 0 then
        ⟨s, step style s.mode s.behind b rest⟩ ::
          turnsFrom style (s.take b (step style s.mode s.behind b rest)) rest
      else turnsFrom style (s.pass b) rest := by
  rw [turnsFrom, turnsOnto]
  split
  · rw [turnsOnto_eq]; rfl
  · rfl

def turns (style : CommentStyle) (text : Text) : List Turn :=
  turnsFrom style .start text.utf8

/-- The lines that turns mark, in order and with repetitions. -/
def markedLines (ts : List Turn) : List Nat :=
  ts.filterMap fun t => if t.step.marks then some t.state.line else none

/-- One flag per line: whether it is among the marked ones. -/
def flags (lineCount : Nat) (marked : List Nat) : Array Bool :=
  marked.foldl (fun table line => table.setIfInBounds line true) (Array.replicate lineCount false)

/-- One flag per line of the first `lineCount` lines: whether it carries code. -/
def codeLines (style : CommentStyle) (text : Text) (lineCount : Nat) : Array Bool :=
  flags lineCount (markedLines (turns style text))

end ClosureLint.Comment
