import ClosureLint.Proofs.Comment.Pieces

/-! Which lines of a text carry code. The flags are read off the marked lines, and for a text that
is cut into pieces these are the lines of the characters that are neither blank nor in a comment. -/

namespace ClosureLint.Comment

theorem size_flags (lineCount : Nat) (marked : List Nat) :
    (flags lineCount marked).size = lineCount := by
  have hfold : ∀ table : Array Bool, (marked.foldl
      (fun table line => table.setIfInBounds line true) table).size = table.size := by
    induction marked with
    | nil => exact fun _ => rfl
    | cons n marked ih =>
      intro table
      rw [List.foldl_cons, ih, Array.size_setIfInBounds]
  rw [flags, hfold, Array.size_replicate]

theorem getElem?_flags {lineCount k : Nat} (hk : k < lineCount) (marked : List Nat) :
    (flags lineCount marked)[k]? = some (decide (k ∈ marked)) := by
  have hfold : ∀ table : Array Bool, k < table.size → (marked.foldl
      (fun table line => table.setIfInBounds line true) table)[k]? =
        some (decide (k ∈ marked) || table.getD k false) := by
    induction marked with
    | nil =>
      intro table hk
      simp [Array.getD, hk]
    | cons n marked ih =>
      intro table hk
      rw [List.foldl_cons, ih _ (by simpa using hk)]
      by_cases hn : n = k
      · simp [hn, hk, Array.getD]
      · simp [Ne.symm hn, hn, hk, Array.getD]
  rw [flags, hfold _ (by simpa using hk)]
  simp [Array.getD, hk]

theorem markedLines_of_crosses {s : State} {text : Text} {m : Mode} {ink : List Nat}
    (h : Crosses .rust s text.utf8 [] m ink) (n : Nat) :
    n ∈ markedLines (turnsFrom .rust s text.utf8) ↔ n ∈ ink := by
  rw [turnsFrom_eq_turnsOver, h.marks]

namespace Piece

/-- A line of the text of some pieces holds a character that is neither blank nor in a comment. -/
def CarriesCode (pieces : List Piece) (line : Nat) : Prop :=
  ∃ before p behind, pieces = before ++ p :: behind ∧ p.isComment = false ∧
    ∃ u c v, p.text = u ++ c :: v ∧ isBlankChar c = false ∧ line = (spell before ++ u).count '\n'

theorem mem_inkLines {line n : Nat} {t : Text} : n ∈ inkLines line t ↔
    ∃ u c v, t = u ++ c :: v ∧ isBlankChar c = false ∧ n = line + u.count '\n' := by
  constructor
  · intro hn
    induction t generalizing line with
    | nil => cases hn
    | cons c t ih =>
      rw [inkLines, List.mem_append] at hn
      rcases hn with hn | hn
      · split at hn
        · cases hn
        · exact ⟨[], c, t, rfl, by simp_all, by simpa using hn⟩
      · obtain ⟨u, d, v, rfl, hd, rfl⟩ := ih hn
        refine ⟨c :: u, d, v, rfl, hd, ?_⟩
        by_cases hc : c = '\n' <;> simp [hc, Nat.add_comm, Nat.add_left_comm]
  · rintro ⟨u, c, v, rfl, hc, rfl⟩
    rw [inkLines_append, inkLines, if_neg (by simp [hc])]
    simp

theorem mem_inkAll {line n : Nat} {pieces : List Piece} : n ∈ inkAll line pieces ↔
    ∃ before p behind, pieces = before ++ p :: behind ∧ p.isComment = false ∧
      ∃ u c v, p.text = u ++ c :: v ∧ isBlankChar c = false ∧
        n = line + (spell before ++ u).count '\n' := by
  constructor
  · intro hn
    induction pieces generalizing line with
    | nil => cases hn
    | cons p pieces ih =>
      rw [inkAll, List.mem_append] at hn
      rcases hn with hn | hn
      · unfold ink at hn
        split at hn
        · cases hn
        · obtain ⟨u, c, v, ht, hc, rfl⟩ := mem_inkLines.mp hn
          exact ⟨[], p, pieces, rfl, by simp_all, u, c, v, ht, hc, rfl⟩
      · obtain ⟨before, q, behind, rfl, hq, u, c, v, ht, hc, rfl⟩ := ih hn
        exact ⟨p :: before, q, behind, rfl, hq, u, c, v, ht, hc, by simp [Nat.add_assoc]⟩
  · rintro ⟨before, p, behind, rfl, hp, u, c, v, ht, hc, rfl⟩
    induction before generalizing line with
    | nil =>
      refine List.mem_append_left _ ?_
      rw [ink, hp]
      exact mem_inkLines.mpr ⟨u, c, v, ht, hc, rfl⟩
    | cons q before ih =>
      refine List.mem_append_right _ ?_
      have := @ih (line + q.text.count '\n')
      simpa [Nat.add_assoc] using this

/-- The lines of a text that is cut into fitting pieces carry code exactly where a character of them
is neither blank nor in a comment. -/
theorem codeLines_spell (pieces : List Piece) (h : FitAll [] [] pieces) (lineCount : Nat) :
    (codeLines .rust (spell pieces) lineCount).size = lineCount ∧
      ∀ k < lineCount, (codeLines .rust (spell pieces) lineCount)[k]? = some true ↔
        CarriesCode pieces k := by
  refine ⟨size_flags _ _, fun k hk => ?_⟩
  obtain ⟨m, hcross, -⟩ := crosses_all (Stands.start (spell pieces ++ [])) h
  have hzero : State.start.line = 0 := rfl
  rw [codeLines, turns, getElem?_flags hk, Option.some.injEq, decide_eq_true_eq,
    markedLines_of_crosses hcross, mem_inkAll, hzero]
  simp only [Nat.zero_add]
  rfl

/-- A quote in a comment, one in another comment and one in quotes. -/
def quotes : List Piece :=
  [.lineComment [' ', '"'], .blank '\n', .code 'x', .blockComment ['"', '*', '/'], .char '"']

theorem codeLines_spell_quotes : FitAll [] [] quotes ∧
    (codeLines .rust (spell quotes) 2).size = 2 ∧
      ∀ k < 2, (codeLines .rust (spell quotes) 2)[k]? = some true ↔ CarriesCode quotes k := by
  have hblock : Balanced 1 ['"', '*', '/'] := .other rfl rfl (.closing .nil)
  have hcode : ∀ behind rest, IsCode behind 'x' rest := fun behind rest =>
    ⟨rfl, by decide, rfl, fun h => absurd h (by decide), fun h => absurd h (by decide)⟩
  have hfit : FitAll [] [] quotes :=
    ⟨⟨by decide, .inr rfl⟩, rfl, hcode _ _, hblock, ⟨by decide, by decide, by decide⟩, trivial⟩
  exact ⟨hfit, codeLines_spell quotes hfit 2⟩

end Piece

end ClosureLint.Comment
