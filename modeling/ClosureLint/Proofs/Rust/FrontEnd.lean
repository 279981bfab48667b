import ClosureLint.Proofs.Rust.Parts
import ClosureLint.Rust.FrontEnd
import Mathlib.Data.List.TakeDrop

/-! The closures of a source text: where they lie among its tokens, and how they move with what
stands in front of the source. -/

namespace ClosureLint

/-- The same closure in a text with `n` more bytes in front. -/
def Closure.shift (n : Nat) (c : Closure) : Closure :=
  ⟨n + c.offset, ⟨n + c.body.offset, c.body.length⟩⟩

namespace Rust

/-- The ranges that are found lie among the tokens, each before those nested in it. -/
theorem closureRanges_ordered {tokens : Array Token} {ranges : List ClosureRange}
    (h : closureRanges tokens = .ok ranges) : Findings.Ordered 0 tokens.size ranges := by
  unfold closureRanges at h
  split at h
  · cases h
  next reading hreading =>
    split at h
    · cases h
    · cases h
      have hsound := (sourceFile _).sound hreading
      exact Findings.Ordered.mono hsound.found (Nat.le_refl 0) (hsound.le_stop (Nat.zero_le _))

/-- The closures of a text are those that its tokens behind the preamble hold. -/
theorem closures_eq_ok_iff {text : Text} {cs : List Closure} :
    closures text = .ok cs ↔ ∃ tokens ranges, tokenize (Preamble.split text).rest = .ok tokens ∧
      closureRanges tokens = .ok ranges ∧
        cs = ranges.map (closureAt (Preamble.split text).length tokens) := by
  simp only [closures]
  constructor
  · intro hcs
    split at hcs
    · cases hcs
    next tokens htokens =>
      split at hcs
      · cases hcs
      next ranges hranges => exact ⟨tokens, ranges, htokens, hranges, (Except.ok.inj hcs).symm⟩
  · rintro ⟨tokens, ranges, htokens, hranges, rfl⟩
    rw [htokens]
    simp only
    rw [hranges]

/-- The closures of a source move with its preamble, and so do its faults. -/
theorem closures_shift {text rest : Text} {n : Nat} (h : Preamble.split text = ⟨n, rest⟩)
    (hrest : Preamble.split rest = ⟨0, rest⟩) :
    closures text = (closures rest).map (List.map (Closure.shift n)) := by
  have hshift : ∀ tokens range, closureAt n tokens range = (closureAt 0 tokens range).shift n := by
    intro tokens range
    simp [closureAt, Closure.shift]
  simp only [closures, h, hrest]
  cases tokenize rest with
  | error fault => rfl
  | ok tokens =>
    simp only
    cases closureRanges tokens with
    | error fault => rfl
    | ok ranges =>
      simp only [Except.map, List.map_map]
      congr 1
      exact List.map_congr_left fun range _ => hshift tokens range

theorem cutShebang_front (t : Text) : ∃ front, t = front ++ (Preamble.cutShebang t).rest ∧
    (Preamble.cutShebang t).length = front.byteLength ∧ '\n' ∉ front ∧
      (front = [] ∨ (Preamble.cutShebang t).rest = [] ∨
        (Preamble.cutShebang t).rest.head? = some '\n') := by
  unfold Preamble.cutShebang
  split
  · simp only [List.span_eq_takeWhile_dropWhile]
    refine ⟨_, List.takeWhile_append_dropWhile.symm, rfl, ?_, .inr ?_⟩
    · intro hmem
      have := List.all_eq_true.mp List.all_takeWhile _ hmem
      simp at this
    · have hhead := List.head?_dropWhile_not (fun c : Char => decide (c ≠ '\n')) t
      cases hrest : t.dropWhile fun c => decide (c ≠ '\n') with
      | nil => exact .inl rfl
      | cons c rest =>
        rw [hrest] at hhead
        exact .inr (congrArg some (by simpa using hhead))
  · exact ⟨[], rfl, rfl, by simp, .inl rfl⟩

theorem split_front (t : Text) : ∃ front, t = front ++ (Preamble.split t).rest ∧
    (Preamble.split t).length = front.byteLength ∧ '\n' ∉ front ∧
      (front = [] ∨ front = ['\ufeff'] ∨ (Preamble.split t).rest = [] ∨
        (Preamble.split t).rest.head? = some '\n') := by
  unfold Preamble.split
  split
  next t =>
    obtain ⟨front, ht, hlength, hline, hrest⟩ := cutShebang_front t
    refine ⟨'\ufeff' :: front, congrArg _ ht, ?_, ?_, ?_⟩
    · rw [Text.byteLength_cons, ← hlength]
    · simp [hline]
    · rcases hrest with rfl | hrest
      · exact .inr (.inl rfl)
      · exact .inr (.inr hrest)
  next =>
    obtain ⟨front, ht, hlength, hline, hrest⟩ := cutShebang_front t
    refine ⟨front, ht, hlength, hline, ?_⟩
    rcases hrest with rfl | hrest
    · exact .inl rfl
    · exact .inr (.inr hrest)

theorem split_newline (s : Text) : Preamble.split ('\n' :: s) = ⟨0, '\n' :: s⟩ := rfl

theorem lo_of_mem_extents {offset : Nat} {parts : List Part} {e : Extent}
    (h : e ∈ extents offset parts) : offset ≤ e.lo := by
  induction parts generalizing offset with
  | nil => cases h
  | cons p parts ih =>
    rw [extents, List.mem_append, Option.mem_toList, Option.map_eq_some_iff] at h
    rcases h with ⟨lexeme, -, rfl⟩ | h
    · exact Nat.le_refl _
    · have := ih h
      omega

theorem lo_of_tokenize_newline {s : Text} {tokens : Array Token}
    (h : tokenize ('\n' :: s) = .ok tokens) {token : Token} (ht : token ∈ tokens) :
    1 ≤ token.lo := by
  obtain ⟨parts, rest, htext, hparts, htokens⟩ := tokenize_parts h
  have hbom : bom ('\n' :: s) = [] := by simp [bom]
  rw [hbom, List.nil_append] at htext
  rw [hbom] at htokens
  subst htext
  cases hparts with
  | @cons _ lexeme? n parts _ hpart hrest =>
    have hsep : partAt? ('\n' :: s) = some (none, 1) := rfl
    obtain ⟨rfl, rfl⟩ := Prod.mk.inj (Option.some.inj (hsep.symm.trans hpart))
    have hmem : token.extent ∈ tokens.toList.map Token.extent :=
      List.mem_map_of_mem (Array.mem_toList_iff.mpr ht)
    rw [htokens] at hmem
    exact @lo_of_mem_extents 1 _ _ hmem

end Rust

end ClosureLint
