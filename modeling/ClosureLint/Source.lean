import ClosureLint.Comment.Scan
import ClosureLint.WordSize

/-! A file's text with its line index and its code lines. Lines count from 0 here. A line holds
its newline, so a text with `n` newlines has `n + 1` lines, the last of them possibly empty. -/

namespace ClosureLint

/-- One more than the largest offset. -/
def offsetBound : Nat := wordBound 64

/-- `length` bytes from `offset` on. -/
structure ByteSpan where
  offset : Nat
  length : Nat
  deriving DecidableEq, Repr

/-- One past the last byte, if that is still an offset. -/
def ByteSpan.stop? (span : ByteSpan) : Option Nat :=
  if span.offset + span.length < offsetBound then some (span.offset + span.length) else none

/-- The lines from `start` to `stop`, both included. -/
structure LineRange where
  start : Nat
  stop : Nat
  start_le_stop : start ≤ stop
  deriving DecidableEq

/-- The range with these ends, unless they are in the wrong order. -/
def LineRange.ofBounds? (start stop : Nat) : Option LineRange :=
  if h : start ≤ stop then some ⟨start, stop, h⟩ else none

/-- The offsets just behind the newlines of a text that begins at `offset`. -/
def lineStartsFrom : Array Nat → Nat → Text → Array Nat
  | starts, _, [] => starts
  | starts, offset, c :: rest =>
    let next := offset + c.utf8Size
    lineStartsFrom (if c = '\n' then starts.push next else starts) next rest

def lineStarts (text : Text) : Array Nat := lineStartsFrom #[0] 0 text

/-- The number of entries of a sorted array in `lo ..< hi` that are at most `x`, added to `lo`,
found by halving; `fuel` bounds the number of halvings. -/
def partitionFrom (entries : Array Nat) (x : Nat) : Nat → Nat → Nat → Nat
  | 0, lo, _ => lo
  | fuel + 1, lo, hi =>
    if lo < hi then
      let mid := (lo + hi) / 2
      if entries.getD mid 0 ≤ x then partitionFrom entries x fuel (mid + 1) hi
      else partitionFrom entries x fuel lo mid
    else lo

/-- The number of entries of a sorted array that are at most `x`. -/
def partitionPoint (entries : Array Nat) (x : Nat) : Nat :=
  partitionFrom entries x entries.size 0 entries.size

/-- A text that is ready to be measured. -/
structure SourceText where
  text : Text
  /-- Where each line begins. -/
  starts : Array Nat
  /-- Whether each line carries code. -/
  codeLines : Array Bool
  deriving DecidableEq

namespace SourceText

def ofText (text : Text) (style : CommentStyle) : SourceText :=
  let starts := lineStarts text
  ⟨text, starts, Comment.codeLines style text starts.size⟩

def lineCount (file : SourceText) : Nat := file.starts.size

/-- The line that holds an offset; none for an offset inside a character or past the end. The
end of the text belongs to the last line. -/
def lineOf? (file : SourceText) (offset : Nat) : Option Nat :=
  if file.text.isBoundary offset then some (partitionPoint file.starts offset - 1) else none

/-- The lines from the one with a span's first byte to the one with its end; none for a span that
cannot be measured. -/
def lineRange? (file : SourceText) (span : ByteSpan) : Option LineRange := do
  let start ← file.lineOf? span.offset
  let stop ← file.lineOf? (← span.stop?)
  LineRange.ofBounds? start stop

/-- The number of code lines in a range; lines past the last one count nothing. -/
def effectiveLines (file : SourceText) (range : LineRange) : Nat :=
  (file.codeLines.extract range.start (range.stop + 1)).toList.countP id

/-- Whether a range has more than `limit` code lines, and how many it has. -/
def exceeds (file : SourceText) (range : LineRange) (limit : Nat) : Bool × Nat :=
  let count := file.effectiveLines range
  (decide (limit < count), count)

end SourceText

end ClosureLint
