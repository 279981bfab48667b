import ClosureLint.Proofs.Comment.Cut
import ClosureLint.Proofs.Comment.Pieces

/-! Lines of blanks and comments between two lines of a text. The pass goes through them without a
mark, and takes the lines behind them as it would have without them. -/

namespace ClosureLint.Comment

/-- Blanks and comments, where a line comment comes with the newline that ends it. -/
inductive Padding : Text → Prop
  | nil : Padding []
  | blank {c : Char} {t : Text} : isBlankChar c = true → Padding t → Padding (c :: t)
  | lineComment {content t : Text} :
    '\n' ∉ content → Padding t → Padding ('/' :: '/' :: (content ++ '\n' :: t))
  | blockComment {content t : Text} :
    Balanced 1 content → Padding t → Padding ('/' :: '*' :: (content ++ t))

theorem Padding.blanks {a t : Text} (ha : ∀ c ∈ a, isBlankChar c = true) (ht : Padding t) :
    Padding (a ++ t) := by
  induction a with
  | nil => exact ht
  | cons c a ih =>
    obtain ⟨hc, ha⟩ := List.forall_mem_cons.mp ha
    exact .blank hc (ih ha)

/-- Characters of which no marker of a comment is made do not change how deep a text is inside
block comments. -/
theorem Balanced.front {depth : Nat} {a t : Text} (hslash : '/' ∉ a) (hstar : '*' ∉ a)
    (ht : Balanced (depth + 1) t) : Balanced (depth + 1) (a ++ t) := by
  induction a with
  | nil => exact ht
  | cons c a ih =>
    rw [List.mem_cons, not_or] at hslash hstar
    refine .other ?_ ?_ (ih hslash.2 hstar.2)
    · simp [List.isPrefixOf, hslash.1]
    · simp [List.isPrefixOf, hstar.1]

theorem Padding.skips {t rest : Text} {s : State} (ht : Padding t) (h : s.owed = 0)
    (hm : s.mode = .code) : Skips s t rest .code := by
  induction ht generalizing s with
  | nil => exact hm ▸ Skips.nil h
  | @blank c t hc ht ih =>
    have hchar : Skips s [c] (t ++ rest) .code := by
      have := @Inks.blank s (t ++ rest) c h hm hc
      unfold Inks inkLines inkLines at this
      rwa [if_pos hc] at this
    exact hchar.append (ih rfl rfl)
  | @lineComment content t hcontent ht ih =>
    have hopen : Skips s ['/', '/'] (content ++ (['\n'] ++ t) ++ rest) .lineComment := by
      refine Skips.turn h (by decide) (by decide) ?_
      rw [hm]
      exact stepCode_line s.behind (content ++ (['\n'] ++ t) ++ rest).utf8
    have hnewline : ∀ s : State, s.owed = 0 → s.mode = .lineComment →
        Skips s ['\n'] (t ++ rest) .code := by
      intro s h hm
      have := @Crosses.newline .rust s (t ++ rest).utf8 h
      rwa [if_pos hm] at this
    refine hopen.append ((Skips.lineComment ?_ ?_ hcontent).append
      ((hnewline _ ?_ ?_).append (ih ?_ ?_))) <;> rfl
  | @blockComment content t hcontent ht ih =>
    have hopen : Skips s ['/', '*'] (content ++ t ++ rest) (.block 1) := by
      refine Skips.turn h (by decide) (by decide) ?_
      rw [hm]
      exact stepCode_block s.behind (content ++ t ++ rest).utf8
    refine hopen.append ((Skips.balanced hcontent ?_ ?_).append (ih ?_ ?_)) <;> rfl

/-- Padding between two lines moves the marks behind it, and changes nothing else about them. -/
theorem markedLines_padded {a ins : Text} (b : Text) (hend : a.getLast? = some '\n')
    (hslash : SlashesFar a) (hsettles : Settles .rust a b) (hpad : Padding ins)
    (hins : ins = [] ∨ ins.getLast? = some '\n') :
    ∃ front back : List Nat, (∀ n ∈ front, n < a.count '\n') ∧ (∀ n ∈ back, a.count '\n' ≤ n) ∧
      markedLines (turns .rust (a ++ b)) = front ++ back ∧
      markedLines (turns .rust (a ++ ins ++ b)) = front ++ back.map (· + ins.count '\n') := by
  obtain ⟨front, hfront, hover, hold⟩ := hsettles.markedLines hend
  have hstable := cut_stable hend hslash .start (ins ++ b) b
  have hcross : Skips (State.start.beyond a.utf8 .code) ins b .code := hpad.skips rfl rfl
  have hnone : markedLines (turnsOver .rust (State.start.beyond a.utf8 .code) ins.utf8 b.utf8) =
      [] := by
    refine List.eq_nil_iff_forall_not_mem.mpr fun n hn => ?_
    cases (hcross.marks n).mp hn
  have hmoved : Moved (a.count '\n' + ins.count '\n') .start
      ((State.start.beyond a.utf8 .code).beyond ins.utf8 .code) := by
    refine ⟨rfl, rfl, ?_, [], [], _, rfl, rfl, nofun, ?_⟩
    · rw [State.line_beyond, line_beyond_start]
      exact (Nat.zero_add _).symm
    · rcases hins with rfl | hins
      · exact beginsLine_of_getLast? hend _
      · exact beginsLine_of_getLast? hins _
  refine ⟨front, _, hfront, ?_, hold, ?_⟩
  · intro n hn
    obtain ⟨k, -, rfl⟩ := List.mem_map.mp hn
    omega
  · rw [turns, List.append_assoc, Text.utf8_append, turnsFrom_append, hstable.1, hstable.2,
      hsettles.reaches, Text.utf8_append, turnsFrom_append, hcross.reaches, markedLines_append,
      markedLines_append, hnone, List.nil_append, hmoved.markedLines, ← hover, List.map_map]
    simp only [turns, Function.comp_def, Nat.add_assoc]

end ClosureLint.Comment
