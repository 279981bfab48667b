import ClosureLint.Proofs.Source.Lines
import Mathlib.Data.List.DropRight
import Mathlib.Data.Prod.Lex
import Mathlib.Order.Bounds.Basic

/-! Printed positions. The position of an offset is the one behind the characters in front of it, an
offset inside a character being taken for the end of that character and one past the text for its
end. A position moves on with each character, so positions tell offsets between characters apart and
put them in order. -/

namespace ClosureLint

namespace Position

/-- Positions in their order: by line, and by column on a line. -/
def key (p : Position) : ℕ ×ₗ ℕ := toLex (p.line, p.column)

theorem key_lt_advance (p : Position) (c : Char) : p.key < (p.advance c).key := by
  rw [key, key, Prod.Lex.toLex_lt_toLex, advance]
  split
  · exact .inl (Nat.lt_succ_self _)
  · exact .inr ⟨rfl, Nat.lt_succ_self _⟩

/-- The position behind some characters at the beginning of a text. -/
def behind (front : Text) : Position := front.foldl advance origin

theorem key_le_foldl (p : Position) (t : Text) : p.key ≤ (t.foldl advance p).key := by
  induction t generalizing p with
  | nil => exact le_rfl
  | cons c t ih => exact (key_lt_advance p c).le.trans (ih _)

theorem key_behind_le (a e : Text) : (behind a).key ≤ (behind (a ++ e)).key := by
  rw [behind, behind, List.foldl_append]
  exact key_le_foldl _ e

theorem key_behind_lt (a : Text) (c : Char) (e : Text) :
    (behind a).key < (behind (a ++ c :: e)).key := by
  rw [behind, behind, List.foldl_append, List.foldl_cons]
  exact (key_lt_advance _ c).trans_le (key_le_foldl _ e)

/-- The line counts the newlines, and the column the characters behind the last one. -/
theorem behind_eq (front : Text) :
    behind front = ⟨1 + front.count '\n', 1 + (front.rtakeWhile (· ≠ '\n')).length⟩ := by
  induction front using List.reverseRecOn with
  | nil => rfl
  | append_singleton front c ih =>
    have hstep : behind (front ++ [c]) = (behind front).advance c := by
      rw [behind, List.foldl_append]
      rfl
    rw [hstep, ih, advance]
    split
    next h => simp [h, Nat.add_assoc]
    next h => simp [h, Nat.add_assoc]

end Position

namespace Text

variable {t : Text} {m n : Nat}

/-- The front part of a text up to the least boundary that is not before an offset, or up to the end
of the text if there is none. -/
def CutAt (t front : Text) (offset : Nat) : Prop :=
  IsLeast {n | t.isBoundary n = true ∧ min offset t.byteLength ≤ n} front.byteLength

theorem isBoundary_cons {c : Char} : (Text.isBoundary (c :: t) n = true) ↔
    n = 0 ∨ ∃ k, n = c.utf8Size + k ∧ t.isBoundary k = true := by
  cases n with
  | zero => simp [isBoundary]
  | succ n =>
    have hpos := c.utf8Size_pos
    rw [isBoundary, Bool.and_eq_true, decide_eq_true_eq]
    constructor
    · rintro ⟨hle, h⟩
      exact .inr ⟨_, by omega, h⟩
    · rintro (h | ⟨k, hk, h⟩)
      · omega
      · rw [hk, Nat.add_sub_cancel_left]
        exact ⟨Nat.le_add_right _ _, h⟩

/-- A position is that behind the characters up to the cut at its offset. -/
theorem exists_cutAt (p : Position) (t : Text) (n : Nat) : ∃ front back, t = front ++ back ∧
    CutAt t front n ∧ p.after t n = front.foldl Position.advance p := by
  induction t generalizing p n with
  | nil => exact ⟨[], [], rfl, ⟨⟨rfl, Nat.min_le_right _ _⟩, fun _ _ => Nat.zero_le _⟩, rfl⟩
  | cons c t ih =>
    rw [Position.after]
    split
    next hn =>
      refine ⟨[], c :: t, rfl, ⟨⟨isBoundary_cons.mpr (.inl rfl), ?_⟩, fun _ _ => Nat.zero_le _⟩, rfl⟩
      rw [hn]
      exact Nat.min_le_left _ _
    next hn =>
      obtain ⟨front, back, rfl, ⟨⟨hbound, hmin⟩, hleast⟩, hafter⟩ := ih (p.advance c) (n - c.utf8Size)
      have hpos := c.utf8Size_pos
      refine ⟨c :: front, back, rfl, ⟨⟨isBoundary_cons.mpr (.inr ⟨_, rfl, hbound⟩), ?_⟩, ?_⟩, hafter⟩
      · rw [byteLength_cons, byteLength_cons]
        omega
      · rintro m ⟨hm, hmn⟩
        rw [byteLength_cons] at hmn
        rcases isBoundary_cons.mp hm with rfl | ⟨k, rfl, hk⟩
        · omega
        · have := hleast ⟨hk, by omega⟩
          rw [byteLength_cons]
          omega

theorem CutAt.mono {a b : Text} (ha : CutAt t a m) (hb : CutAt t b n) (h : m ≤ n) :
    a.byteLength ≤ b.byteLength :=
  ha.2 ⟨hb.1.1, Nat.le_trans (by omega) hb.1.2⟩

theorem cutAt_append (a b : Text) : CutAt (a ++ b) a a.byteLength := by
  refine ⟨⟨isBoundary_append a b, Nat.min_le_left _ _⟩, fun n hn => ?_⟩
  have := hn.2
  rw [byteLength_append] at this
  omega

theorem position_append (a b : Text) :
    (a ++ b).position a.byteLength = Position.behind a := by
  obtain ⟨front, back, ht, hcut, hposition⟩ := exists_cutAt .origin (a ++ b) a.byteLength
  obtain ⟨rfl, -⟩ := append_inj_of_byteLength ht ((cutAt_append a b).unique hcut)
  exact hposition

theorem position_mono (t : Text) (h : m ≤ n) : (t.position m).key ≤ (t.position n).key := by
  obtain ⟨a, b, rfl, ha, hm⟩ := exists_cutAt .origin t m
  obtain ⟨c, d, hcd, hc, hn⟩ := exists_cutAt .origin (a ++ b) n
  obtain ⟨e, rfl, -⟩ := exists_append_of_byteLength_le hcd (ha.mono hc h)
  rw [position, position, hm, hn]
  exact Position.key_behind_le a e

theorem position_lt (t : Text) (hm : t.isBoundary m = true) (hn : t.isBoundary n = true)
    (h : m < n) : (t.position m).key < (t.position n).key := by
  obtain ⟨a, b, rfl, rfl⟩ := isBoundary_iff.mp hm
  obtain ⟨c, d, hcd, rfl⟩ := isBoundary_iff.mp hn
  obtain ⟨e, rfl, -⟩ := exists_append_of_byteLength_le hcd h.le
  cases e with
  | nil => simp at h
  | cons x e =>
    rw [position_append, hcd, position_append]
    exact Position.key_behind_lt a x e

end Text

theorem line_position {style : CommentStyle} {t : Text} {offset line : Nat}
    (h : (SourceText.ofText t style).lineOf? offset = some line) :
    (t.position offset).line = line + 1 := by
  obtain ⟨a, b, rfl, rfl, rfl⟩ := SourceText.lineOf?_eq_some_iff.mp h
  rw [Text.position_append, Position.behind_eq, Nat.add_comm]

end ClosureLint
