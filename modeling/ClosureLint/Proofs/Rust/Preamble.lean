import ClosureLint.Proofs.Rust.FrontEnd
import ClosureLint.Proofs.Source.Lines
import ClosureLint.Proofs.Text.Utf8
import Mathlib

/-! Sources with a preamble. The preamble is cut off at a boundary, within the first line, and any
parser of the code behind it becomes a reader of sources: what it gives moves by the bytes that were
cut off. The front end for Rust is of this kind, so a byte order mark moves its closures by three
bytes, and the line of an interpreter by the bytes of that line, and neither changes its faults. -/

namespace ClosureLint

theorem Closure.shift_shift (m n : Nat) :
    Closure.shift m ∘ Closure.shift n = Closure.shift (m + n) := by
  funext c
  simp [Closure.shift, Nat.add_assoc]

namespace Rust

variable {ε : Type}

/-- Reads a source with a parser for the code behind its preamble. -/
def readBehind (parse : Text → Except ε (List Closure)) (source : Text) :
    Except ε (List Closure) :=
  (parse (Preamble.split source).rest).map
    (List.map (Closure.shift (Preamble.split source).length))

/-- The closures of code without a preamble. -/
def codeClosures (code : Text) : Except SourceFault (List Closure) :=
  match tokenize code with
  | .error fault => .error ⟨code.position fault.offset⟩
  | .ok tokens =>
    match closureRanges tokens with
    | .error fault => .error ⟨tokenPosition code tokens fault.index⟩
    | .ok ranges => .ok (ranges.map (closureAt 0 tokens))

theorem closureAt_eq_shift (base : Nat) (tokens : Array Token) :
    closureAt base tokens = Closure.shift base ∘ closureAt 0 tokens := by
  funext range
  simp [closureAt, Closure.shift]

theorem closures_eq_readBehind : closures = readBehind codeClosures := by
  funext source
  rw [readBehind, codeClosures, closures]
  cases tokenize (Preamble.split source).rest with
  | error fault => rfl
  | ok tokens =>
    simp only
    cases closureRanges tokens with
    | error fault => rfl
    | ok ranges =>
      simp only [Except.map, List.map_map]
      rw [closureAt_eq_shift]

/-- Where a preamble has `n` more bytes and the same code behind it, the closures move by `n`. -/
theorem readBehind_of_split {parse : Text → Except ε (List Closure)} {source other : Text} {n : Nat}
    (h : Preamble.split source =
      ⟨n + (Preamble.split other).length, (Preamble.split other).rest⟩) :
    readBehind parse source = (readBehind parse other).map (List.map (Closure.shift n)) := by
  rw [readBehind, readBehind, h]
  cases parse (Preamble.split other).rest with
  | error fault => rfl
  | ok closures => simp only [Except.map, List.map_map, Closure.shift_shift]

theorem split_of_head? {s : Text} (h : s.head? ≠ some '\ufeff') :
    Preamble.split s = Preamble.cutShebang s := by
  unfold Preamble.split
  split
  · exact absurd rfl h
  · rfl

/-- What a reader of sources does with a preamble: the closures move by what stands in front of the
code, and a fault remains what it is. -/
structure MovesWithPreamble (read : Text → Except ε (List Closure)) : Prop where
  /-- A byte order mark in front of a source without one. -/
  mark : ∀ s : Text, s.head? ≠ some '\ufeff' →
    read ('\ufeff' :: s) = (read s).map (List.map (Closure.shift 3))
  /-- A first line that is cut off, and nothing else. -/
  line : ∀ l s : Text, Preamble.split (l ++ '\n' :: s) = ⟨l.byteLength, '\n' :: s⟩ →
    read (l ++ '\n' :: s) = (read ('\n' :: s)).map (List.map (Closure.shift l.byteLength))

theorem movesWithPreamble_readBehind (parse : Text → Except ε (List Closure)) :
    MovesWithPreamble (readBehind parse) where
  mark s hs := by
    refine readBehind_of_split ?_
    rw [split_of_head? hs]
    rfl
  line _ _ hcut := readBehind_of_split hcut

theorem split_cuts (source : Text) :
    source.isBoundary (Preamble.split source).length = true ∧
      (Preamble.split source).rest.utf8 = source.utf8.drop (Preamble.split source).length ∧
        0x0a ∉ source.utf8.take (Preamble.split source).length := by
  obtain ⟨front, hsource, hlength, hline, -⟩ := split_front source
  have hfront : front.utf8.length = (Preamble.split source).length :=
    (Text.length_utf8 front).trans hlength.symm
  have hbytes : source.utf8 = front.utf8 ++ (Preamble.split source).rest.utf8 :=
    (congrArg Text.utf8 hsource).trans (Text.utf8_append ..)
  refine ⟨?_, ?_, ?_⟩
  · rw [hlength]
    exact (congrArg (Text.isBoundary · front.byteLength) hsource).trans
      (Text.isBoundary_append front _)
  · rw [hbytes, List.drop_left' hfront]
  · rw [hbytes, List.take_left' hfront]
    exact fun hmem => hline ((Text.mem_utf8 (c := '\n') (by decide) front).mp hmem)

/-- Every preamble ends at a boundary of the source and within its first line, with the code behind
it; the closures that any parser finds in the code move with the preamble; and the front end is a
parser of the code behind the preamble. -/
theorem closures_move :
    (∀ source : Text, source.isBoundary (Preamble.split source).length = true ∧
      (Preamble.split source).rest.utf8 = source.utf8.drop (Preamble.split source).length ∧
        0x0a ∉ source.utf8.take (Preamble.split source).length) ∧
    (∀ (ε : Type) (parse : Text → Except ε (List Closure)),
      MovesWithPreamble (readBehind parse)) ∧
    closures = readBehind codeClosures ∧ MovesWithPreamble closures := by
  refine ⟨split_cuts, fun ε => movesWithPreamble_readBehind, closures_eq_readBehind, ?_⟩
  rw [closures_eq_readBehind]
  exact movesWithPreamble_readBehind codeClosures

/-- A closure behind a newline, then behind the line of a shell as well, and then also behind a byte
order mark. -/
theorem closures_move_shell :
    let shell : Text := "#!sh".toList
    let code : Text := "\nfn f() \x7b || 1 \x7d".toList
    closures code = .ok [⟨10, ⟨13, 1⟩⟩] ∧
      Preamble.split (shell ++ code) = ⟨4, code⟩ ∧
        closures (shell ++ code) = .ok [⟨14, ⟨17, 1⟩⟩] ∧
          closures ('\ufeff' :: (shell ++ code)) = .ok [⟨17, ⟨20, 1⟩⟩] := by
  intro shell code
  have hcode : closures code = .ok [⟨10, ⟨13, 1⟩⟩] := by decide +kernel
  have hcut : Preamble.split (shell ++ code) = ⟨4, code⟩ := by decide +kernel
  obtain ⟨-, -, -, hmoves⟩ := closures_move
  have hshell := hmoves.line shell "fn f() \x7b || 1 \x7d".toList hcut
  have hmark := hmoves.mark (shell ++ code) (by decide)
  rw [show '\n' :: "fn f() \x7b || 1 \x7d".toList = code by decide +kernel, hcode] at hshell
  rw [hshell] at hmark
  exact ⟨hcode, hcut, hshell, hmark⟩

end Rust

end ClosureLint
