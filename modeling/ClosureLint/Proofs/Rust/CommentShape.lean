import ClosureLint.Proofs.Comment.Piece
import ClosureLint.Rust.Lexer

/-! What the lexer takes for comments, plain or of documentation, has the form of comments: it runs
to the end of its line, or to the end of its outermost block. -/

namespace ClosureLint.Rust

open Comment (Balanced)

/-- A comment of so many characters at the front of a text. -/
inductive CommentAt : Text → Nat → Prop
  | line {content rest : Text} : '\n' ∉ content → rest = [] ∨ rest.head? = some '\n' →
    CommentAt ('/' :: '/' :: (content ++ rest)) (content.length + 2)
  | block {content rest : Text} : Balanced 1 content →
    CommentAt ('/' :: '*' :: (content ++ rest)) (content.length + 2)

theorem lineWidth_shape (width : Nat) (t : Text) :
    ∃ content rest, t = content ++ rest ∧ lineWidth width t = width + content.length ∧
      '\n' ∉ content ∧ (rest = [] ∨ rest.head? = some '\n') := by
  fun_induction lineWidth width t with
  | case1 width => exact ⟨[], [], rfl, rfl, by simp, .inl rfl⟩
  | case2 width t => exact ⟨['\r'], '\n' :: t, rfl, rfl, by decide, .inr rfl⟩
  | case3 width c t _ hc =>
    obtain rfl : c = '\n' := by simpa using hc
    exact ⟨[], _, rfl, rfl, by simp, .inr rfl⟩
  | case4 width c t _ hc ih =>
    obtain ⟨content, rest, rfl, hwidth, hline, hrest⟩ := ih
    refine ⟨c :: content, rest, rfl, ?_, ?_, hrest⟩
    · rw [hwidth, List.length_cons]
      omega
    · have hne : '\n' ≠ c := fun h => hc (by rw [← h]; rfl)
      simpa [hne] using hline

theorem isPrefixOf_pair_eq_false {a b c : Char} {content rest : Text}
    (h : ∀ tail, c = a → content ++ rest = b :: tail → False) :
    [a, b].isPrefixOf (c :: content) = false := by
  cases content with
  | nil => simp [List.isPrefixOf]
  | cons d content =>
    refine Bool.eq_false_iff.mpr fun hmarker => ?_
    simp only [List.isPrefixOf, Bool.and_true, Bool.and_eq_true, beq_iff_eq] at hmarker
    exact h (content ++ rest) hmarker.1.symm (by rw [hmarker.2]; rfl)

theorem blockWidth_shape {depth width n : Nat} {t : Text} (hd : 1 ≤ depth)
    (h : blockWidth depth width t = some n) :
    ∃ content rest, t = content ++ rest ∧ n = width + content.length ∧ Balanced depth content := by
  fun_induction blockWidth depth width t with
  | case1 depth width t ih =>
    obtain ⟨content, rest, rfl, rfl, hb⟩ := ih (by omega) h
    obtain ⟨d, rfl⟩ : ∃ d, depth = d + 1 := ⟨depth - 1, by omega⟩
    exact ⟨'/' :: '*' :: content, rest, rfl, by simp only [List.length_cons]; omega, .opening hb⟩
  | case2 depth width t hle =>
    obtain rfl : depth = 1 := by omega
    cases h
    exact ⟨['*', '/'], t, rfl, rfl, .closing .nil⟩
  | case3 depth width t hlt ih =>
    obtain ⟨content, rest, rfl, rfl, hb⟩ := ih (by omega) h
    obtain ⟨d, rfl⟩ : ∃ d, depth = d + 1 := ⟨depth - 1, by omega⟩
    exact ⟨'*' :: '/' :: content, rest, rfl, by simp only [List.length_cons]; omega, .closing hb⟩
  | case4 depth width c t hopen hclose ih =>
    obtain ⟨content, rest, rfl, rfl, hb⟩ := ih hd h
    obtain ⟨d, rfl⟩ : ∃ d, depth = d + 1 := ⟨depth - 1, by omega⟩
    exact ⟨c :: content, rest, rfl, by simp only [List.length_cons]; omega,
      .other (isPrefixOf_pair_eq_false hopen) (isPrefixOf_pair_eq_false hclose) hb⟩
  | case5 => cases h

theorem CommentAt.ofLine {start : Text} (hstart : '\n' ∉ start) (t : Text) :
    CommentAt ('/' :: '/' :: (start ++ t)) (lineWidth (start.length + 2) t) := by
  obtain ⟨content, rest, rfl, hwidth, hline, hrest⟩ := lineWidth_shape (start.length + 2) t
  have hlength : lineWidth (start.length + 2) (content ++ rest) = (start ++ content).length + 2 := by
    rw [hwidth, List.length_append]
    omega
  rw [hlength, ← List.append_assoc]
  refine .line ?_ hrest
  rw [List.mem_append, not_or]
  exact ⟨hstart, hline⟩

theorem CommentAt.ofBlock {t : Text} {n : Nat} (h : blockWidth 1 2 t = some n) :
    CommentAt ('/' :: '*' :: t) n := by
  obtain ⟨content, rest, rfl, rfl, hb⟩ := blockWidth_shape (Nat.le_refl 1) h
  rw [Nat.add_comm]
  exact .block hb

/-- A plain comment has the form of a comment. -/
theorem comment?_shape {t : Text} {n : Nat} (h : comment? t = some n) : CommentAt t n := by
  unfold comment? at h
  split at h
  next => cases h
  next rest =>
    cases h
    exact @CommentAt.ofLine ['/', '/'] (by decide) rest
  next => cases h
  next rest _ _ _ =>
    cases h
    exact @CommentAt.ofLine [] (by decide) rest
  next rest =>
    cases h
    exact @CommentAt.block ['*', '/'] _ (.closing .nil)
  next => cases h
  next rest => exact CommentAt.ofBlock h
  next => cases h
  next rest _ _ _ _ => exact CommentAt.ofBlock h
  next => cases h

theorem lineDoc?_shape {c : Char} {t : Text} {n : Nat} (hc : c ≠ '\n') (h : lineDoc? 3 t = some n) :
    CommentAt ('/' :: '/' :: c :: t) n := by
  have hn : n = 3 + lineWidth 0 t := by
    simp only [lineDoc?, Option.ite_none_right_eq_some, Option.some.injEq] at h
    exact h.2.symm
  obtain ⟨content, rest, rfl, hwidth, hline, hrest⟩ := lineWidth_shape 0 t
  have hlength : n = (c :: content).length + 2 := by
    rw [hn, hwidth, List.length_cons]
    omega
  rw [hlength]
  refine @CommentAt.line (c :: content) _ ?_ hrest
  rw [List.mem_cons, not_or]
  exact ⟨Ne.symm hc, hline⟩

theorem blockDoc?_shape {t : Text} {n : Nat} (h : blockDoc? t = some n) :
    CommentAt ('/' :: '*' :: t) n := by
  simp only [blockDoc?, Option.bind_eq_bind, Option.bind_eq_some_iff] at h
  obtain ⟨m, hm, h⟩ := h
  split at h
  · cases h
    exact CommentAt.ofBlock hm
  · cases h

theorem doc?_shape {t : Text} {inner : Bool} {n : Nat} (h : doc? t = some (inner, n)) :
    CommentAt t n := by
  unfold doc? at h
  split at h
  next rest =>
    obtain ⟨m, hm, he⟩ := Option.map_eq_some_iff.mp h
    cases he
    exact lineDoc?_shape (by decide) hm
  next rest =>
    obtain ⟨m, hm, he⟩ := Option.map_eq_some_iff.mp h
    cases he
    exact blockDoc?_shape hm
  next => cases h
  next rest _ =>
    obtain ⟨m, hm, he⟩ := Option.map_eq_some_iff.mp h
    cases he
    exact lineDoc?_shape (by decide) hm
  next => cases h
  next rest _ =>
    obtain ⟨m, hm, he⟩ := Option.map_eq_some_iff.mp h
    cases he
    exact blockDoc?_shape hm
  next => cases h

end ClosureLint.Rust
