import ClosureLint.Proofs.Rust.Places
import ClosureLint.Proofs.Source.Lines
import Mathlib.Data.List.Nodup

/-! The closures that the front end reports, as places in the source. Each closure begins before its
body, both lie in the source and between characters, so every body can be measured; no two closures
begin at the same byte; and of two bodies either they lie apart, or the one that is listed later
lies inside the other one. -/

namespace ClosureLint

namespace ByteSpan

/-- No byte is in both spans. -/
def Apart (a b : ByteSpan) : Prop :=
  a.offset + a.length ≤ b.offset ∨ b.offset + b.length ≤ a.offset

/-- The span is a proper part of the other one, and begins behind its beginning. -/
def Inside (a b : ByteSpan) : Prop :=
  b.offset < a.offset ∧ a.offset + a.length ≤ b.offset + b.length

end ByteSpan

/-- A closure has a place in a text: its head comes before its body, the body has bytes, all three
ends are boundaries, and the body can be measured. A text in memory is always shorter than the bound
on offsets. -/
structure Closure.Placed (t : Text) (closure : Closure) : Prop where
  offset_lt : closure.offset < closure.body.offset
  length_pos : 0 < closure.body.length
  stop_le : closure.body.offset + closure.body.length ≤ t.byteLength
  offset_boundary : t.isBoundary closure.offset = true
  body_boundary : t.isBoundary closure.body.offset = true
  stop_boundary : t.isBoundary (closure.body.offset + closure.body.length) = true
  measured : t.byteLength < offsetBound → ∀ style,
    ((SourceText.ofText t style).lineRange? closure.body).isSome = true

namespace Rust

variable {t : Text} {tokens : Array Token} {ranges : List ClosureRange}

theorem token_boundaries (h : tokenize (Preamble.split t).rest = .ok tokens) {i : Nat}
    (hi : i < tokens.size) :
    t.isBoundary ((Preamble.split t).length + firstByte tokens i) = true ∧
      t.isBoundary ((Preamble.split t).length + lastByte tokens (i + 1)) = true := by
  obtain ⟨front, before, p, after, ht, -, -, -, -, -, hbegin, hend⟩ := source_of_token h hi
  rw [firstByte_eq hi, lastByte_succ hi, ← hbegin, ← hend, ht]
  refine ⟨?_, Text.isBoundary_append _ _⟩
  rw [List.append_assoc]
  exact Text.isBoundary_append _ _

theorem stop_closureAt {s : Text} (h : tokenize s = .ok tokens) {range : ClosureRange}
    (hstop : range.stop ≤ tokens.size) (base : Nat) :
    (closureAt base tokens range).body.offset + (closureAt base tokens range).body.length =
      base + lastByte tokens range.stop := by
  have := firstByte_lt_lastByte h range.bodyStart_lt hstop
  simp only [closureAt]
  omega

theorem placed_closureAt (h : tokenize (Preamble.split t).rest = .ok tokens) {range : ClosureRange}
    (hstop : range.stop ≤ tokens.size) :
    (closureAt (Preamble.split t).length tokens range).Placed t := by
  have hbody : range.bodyStart < tokens.size := Nat.lt_of_lt_of_le range.bodyStart_lt hstop
  have hfirst := firstByte_lt h range.start_lt hbody
  have hlast := firstByte_lt_lastByte h range.bodyStart_lt hstop
  have hend : t.isBoundary ((Preamble.split t).length + lastByte tokens range.stop) = true := by
    obtain ⟨k, hk⟩ : ∃ k, range.stop = k + 1 :=
      ⟨range.stop - 1, by have := range.bodyStart_lt; omega⟩
    rw [hk] at hstop ⊢
    exact (token_boundaries h hstop).2
  rw [← stop_closureAt h hstop] at hend
  have hbegin := (token_boundaries h hbody).1
  exact {
    offset_lt := Nat.add_lt_add_left hfirst _
    length_pos := Nat.sub_pos_of_lt hlast
    stop_le := Text.le_of_isBoundary hend
    offset_boundary := (token_boundaries h (Nat.lt_trans range.start_lt hbody)).1
    body_boundary := hbegin
    stop_boundary := hend
    measured := fun hbound _ => SourceText.isSome_lineRange? hbegin hend
      (Nat.lt_of_le_of_lt (Text.le_of_isBoundary hend) hbound) }

/-- Of two closures, the bodies lie apart, or that of the later one is inside that of the first
one. -/
theorem bodies_of_precedes {s : Text} (h : tokenize s = .ok tokens) {a b : ClosureRange}
    (ha : a.stop ≤ tokens.size) (hb : b.stop ≤ tokens.size) (hab : a.Precedes b) (base : Nat) :
    (closureAt base tokens a).body.Apart (closureAt base tokens b).body ∨
      (closureAt base tokens b).body.Inside (closureAt base tokens a).body := by
  have ha₁ := a.start_lt
  have ha₂ := a.bodyStart_lt
  have hb₁ := b.start_lt
  have hb₂ := b.bodyStart_lt
  have habody := Nat.lt_of_lt_of_le ha₂ ha
  have hbbody := Nat.lt_of_lt_of_le hb₂ hb
  rw [ByteSpan.Apart, ByteSpan.Inside, stop_closureAt h ha, stop_closureAt h hb]
  simp only [closureAt, Nat.add_le_add_iff_left, Nat.add_lt_add_iff_left]
  rcases hab with hafter | hbefore | ⟨-, hhead⟩ | ⟨hbody, hstop⟩
  · exact .inl (.inl (lastByte_le_firstByte h (by omega) (by omega) hbbody))
  · exact .inl (.inr (lastByte_le_firstByte h (by omega) (by omega) habody))
  · exact .inl (.inr (lastByte_le_firstByte h (by omega) hhead habody))
  · exact .inr ⟨firstByte_lt h (by omega) hbbody, lastByte_le_lastByte h (by omega) hstop ha⟩

/-- The closures of a source that the front end accepts have places in it, begin at different bytes,
and are properly nested: of two bodies either they lie apart, or one lies inside the other one, and
then the closure around it is listed first. -/
theorem closures_nested (t : Text) (closures : List Closure)
    (h : Rust.closures t = .ok closures) :
    (∀ closure ∈ closures, closure.Placed t) ∧ (closures.map Closure.offset).Nodup ∧
      closures.Pairwise fun a b => a.body.Apart b.body ∨ b.body.Inside a.body := by
  obtain ⟨tokens, ranges, htokens, hranges, rfl⟩ := closures_eq_ok_iff.mp h
  have hprecedes := (closureRanges_ordered hranges).pairwise
  refine ⟨fun closure hmem => ?_, ?_, ?_⟩
  · obtain ⟨range, hr, rfl⟩ := List.mem_map.mp hmem
    exact placed_closureAt htokens (stop_le_size hranges hr)
  · rw [List.map_map]
    refine List.Nodup.map_on (fun a ha b hb => eq_of_offset_eq htokens hranges ha hb) ?_
    exact hprecedes.imp fun hab he => hab.start_ne (congrArg ClosureRange.start he)
  · rw [List.pairwise_map]
    refine hprecedes.imp_of_mem fun ha hb hab => ?_
    exact bodies_of_precedes htokens (stop_le_size hranges ha) (stop_le_size hranges hb) hab _

/-- A source behind a byte order mark and the line of a shell, with a closure in the head of another
one and a third one in its body, which begins with an attribute. -/
def nesting : Text :=
  "\ufeff#!sh\nfn f() \x7b |a: [u8; \x7b || 1; 2 \x7d]| #[é] |b| b \x7d".toList

def nested : List Closure := [⟨17, ⟨40, 11⟩⟩, ⟨28, ⟨31, 1⟩⟩, ⟨40, ⟨50, 1⟩⟩]

theorem closures_nested_three : Rust.closures nesting = .ok nested ∧
    (∀ closure ∈ nested, closure.Placed nesting) ∧ (nested.map Closure.offset).Nodup ∧
      nested.Pairwise fun a b => a.body.Apart b.body ∨ b.body.Inside a.body := by
  have hclosures : Rust.closures nesting = .ok nested := by decide +kernel
  exact ⟨hclosures, closures_nested nesting nested hclosures⟩

end Rust

end ClosureLint
