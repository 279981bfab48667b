import ClosureLint.Proofs.Comment.Lookahead

/-! Cutting a text between two lines. What a turn reads of the text besides its own byte is short:
the bytes behind it end to matter at a newline, and under the conventions of Rust so do the bytes
ahead of it, unless a backslash is close to the cut. So the pass over the lines behind a cut does
not depend on the lines before it, but for their number, and the other way round. -/

namespace ClosureLint.Comment

/-! ### Line numbers -/

/-- Only the turns that stand on a newline begin a new line. -/
theorem step_breaks (style : CommentStyle) (m : Mode) (behind : List UInt8) (b : UInt8)
    (rest : List UInt8) : (step style m behind b rest).breaks = (b == 0x0a) := by
  by_cases hb : b = 0x0a
  · simp [step, hb]
  have hne : ¬ (b == 0x0a) = true := by simpa using hb
  rw [beq_false_of_ne hb]
  cases m with
  | code =>
    rw [step, if_neg hne, stepCode]
    repeat' split
    all_goals rfl
  | lineComment => rw [step, if_neg hne]
  | block depth =>
    rw [step, if_neg hne]
    simp only [stepBlock]
    repeat' split
    all_goals rfl
  | quoted =>
    rw [step, if_neg hne]
    simp only [stepQuoted]
    repeat' split
    all_goals rfl
  | rawQuoted hashes =>
    rw [step, if_neg hne]
    simp only [stepRaw]
    split <;> rfl

theorem step_newline (style : CommentStyle) (m : Mode) (behind rest : List UInt8) :
    step style m behind 0x0a rest = ⟨1, if m = .lineComment then .code else m, false, true⟩ := rfl

/-- The line number lags behind the newlines that have been passed, if anything. -/
theorem line_of_mem_turnsOver {style : CommentStyle} {s : State} {front rest : List UInt8}
    {t : Turn}
    (h : t ∈ turnsOver style s front rest) :
    s.line ≤ t.state.line ∧ t.state.line ≤ s.line + front.count 0x0a := by
  induction front generalizing s with
  | nil => cases h
  | cons b front ih =>
    rw [turnsOver] at h
    have hcount : (b :: front).count 0x0a = front.count 0x0a + if b == 0x0a then 1 else 0 :=
      List.count_cons
    split at h
    · rcases List.mem_cons.mp h with rfl | h
      · exact ⟨Nat.le_refl _, Nat.le_add_right _ _⟩
      · have hlines := ih h
        simp only [State.take, step_breaks] at hlines
        by_cases hb : b == 0x0a
        · rw [if_pos hb] at hlines hcount
          omega
        · rw [if_neg hb] at hlines hcount
          omega
    · have hlines := ih h
      simp only [State.pass] at hlines
      omega

theorem le_of_mem_markedLines {style : CommentStyle} {s : State} {bytes : List UInt8} {n : Nat}
    (hn : n ∈ markedLines (turnsFrom style s bytes)) : s.line ≤ n := by
  rw [turnsFrom_eq_turnsOver] at hn
  obtain ⟨t, ht, hmark⟩ := List.mem_filterMap.mp hn
  obtain ⟨-, hline⟩ := Option.ite_none_right_eq_some.mp hmark
  cases hline
  exact (line_of_mem_turnsOver ht).1

theorem line_stateAfter_le (style : CommentStyle) (s : State) (front rest : List UInt8) :
    (stateAfter style s front rest).line ≤ s.line + front.count 0x0a := by
  induction front generalizing s with
  | nil => exact Nat.le_refl _
  | cons b front ih =>
    have hcount : (b :: front).count 0x0a = front.count 0x0a + if b == 0x0a then 1 else 0 :=
      List.count_cons
    rw [stateAfter]
    split
    · have htake : (s.take b (step style s.mode s.behind b (front ++ rest))).line =
          s.line + if b == 0x0a then 1 else 0 := by
        simp only [State.take, step_breaks]
        split <;> rfl
      have hline := ih (s.take b (step style s.mode s.behind b (front ++ rest)))
      omega
    · have hpass : (s.pass b).line = s.line := rfl
      have hline := ih (s.pass b)
      omega

/-- The lines that are marked in front of a newline are those up to the one that it ends. -/
theorem line_lt_of_mem_markedLines {style : CommentStyle} {s : State} {front rest : List UInt8}
    {n : Nat} (h : n ∈ markedLines (turnsOver style s (front ++ [0x0a]) rest)) :
    n < s.line + (front ++ [0x0a]).count 0x0a := by
  rw [List.count_append, List.count_singleton_self]
  rw [turnsOver_append, markedLines_append, List.mem_append] at h
  rcases h with h | h
  · rw [markedLines, List.mem_filterMap] at h
    obtain ⟨t, ht, hn⟩ := h
    have hle := (line_of_mem_turnsOver ht).2
    split at hn
    · cases hn
      omega
    · cases hn
  · rw [turnsOver] at h
    split at h
    · simp [step_newline, turnsOver, markedLines] at h
    · simp [turnsOver, markedLines] at h

theorem lt_count_of_mem_markedLines {style : CommentStyle} {a : Text} {rest : List UInt8} {n : Nat}
    (hend : a.getLast? = some '\n') (h : n ∈ markedLines (turnsOver style .start a.utf8 rest)) :
    n < a.count '\n' := by
  obtain ⟨u, hutf⟩ := Text.exists_utf8_of_getLast? hend
  rw [hutf] at h
  have hlt := line_lt_of_mem_markedLines h
  rw [← hutf, Text.count_newline] at hlt
  exact Nat.lt_of_lt_of_eq hlt (Nat.zero_add _)

/-! ### The lines behind a cut -/

/-- At the end of `front` the pass takes a turn outside comments and literals, and has counted every
newline up to there. -/
structure Settles (style : CommentStyle) (front rest : Text) : Prop where
  owed : (stateAfter style .start front.utf8 rest.utf8).owed = 0
  mode : (stateAfter style .start front.utf8 rest.utf8).mode = .code
  line : (stateAfter style .start front.utf8 rest.utf8).line = front.count '\n'

theorem Settles.reaches {style : CommentStyle} {front rest : Text} (h : Settles style front rest) :
    stateAfter style .start front.utf8 rest.utf8 = State.start.beyond front.utf8 .code := by
  obtain ⟨hoffset, hbehind⟩ := stateAfter_place style .start front.utf8 rest.utf8
  obtain ⟨howed, hmode, hline⟩ := h
  cases hs : stateAfter style .start front.utf8 rest.utf8
  rw [hs] at hoffset hbehind howed hmode hline
  simp only at hoffset hbehind howed hmode hline
  rw [State.beyond, Text.count_newline, State.mk.injEq]
  exact ⟨hmode, hline.trans (Nat.zero_add _).symm, hoffset, hbehind, howed⟩

/-- The bytes behind a place at which a line begins. -/
def BeginsLine (behind : List UInt8) : Prop := ∀ b ∈ behind.head?, b = 0x0a

/-- Of the bytes behind it, an `r` sees none beyond the beginning of its line. -/
theorem mayOpenRaw_append {p q : List UInt8} (hp : BeginsLine p) (hq : BeginsLine q)
    (front : List UInt8) : mayOpenRaw (front ++ p) = mayOpenRaw (front ++ q) := by
  have hstart : ∀ p, BeginsLine p → mayOpenRaw p = true ∧ p.head?.all (!isWord ·) = true := by
    intro p hp
    cases p with
    | nil => exact ⟨rfl, rfl⟩
    | cons b p =>
      obtain rfl := hp b rfl
      exact ⟨rfl, rfl⟩
  match front with
  | [] => rw [List.nil_append, List.nil_append, (hstart p hp).1, (hstart q hq).1]
  | [b] =>
    by_cases hb : b = 0x62
    · rw [hb]
      exact (hstart p hp).2.trans (hstart q hq).2.symm
    · simp [mayOpenRaw]
  | b :: c :: front =>
    by_cases hb : b = 0x62
    · simp [mayOpenRaw, hb]
    · simp [mayOpenRaw]

theorem step_congr_behind {style : CommentStyle} {m : Mode} {behind behind' : List UInt8}
    (h : mayOpenRaw behind = mayOpenRaw behind') (b : UInt8) (rest : List UInt8) :
    step style m behind b rest = step style m behind' b rest := by
  have hraw : rawHashes? behind b rest = rawHashes? behind' b rest := by
    rw [rawHashes?, rawHashes?, h]
  cases m with
  | code => simp only [step, stepCode, hraw]
  | lineComment => rfl
  | block depth => rfl
  | quoted => rfl
  | rawQuoted hashes => rfl

/-- A state as good as another one, but for the number of lines before it, which is larger by
`d`. -/
structure Moved (d : Nat) (s s' : State) : Prop where
  mode : s'.mode = s.mode
  owed : s'.owed = s.owed
  line : s'.line = s.line + d
  behind : ∃ front p q, s.behind = front ++ p ∧ s'.behind = front ++ q ∧ BeginsLine p ∧ BeginsLine q

theorem Moved.markedLines {style : CommentStyle} {d : Nat} {s s' : State} (h : Moved d s s')
    (bytes : List UInt8) : markedLines (turnsFrom style s' bytes) =
      (markedLines (turnsFrom style s bytes)).map (· + d) := by
  induction bytes generalizing s s' with
  | nil => rfl
  | cons b rest ih =>
    obtain ⟨front, p, q, hs, hs', hp, hq⟩ := h.behind
    have hstep : step style s'.mode s'.behind b rest = step style s.mode s.behind b rest := by
      rw [h.mode]
      refine step_congr_behind ?_ b rest
      rw [hs, hs']
      exact mayOpenRaw_append hq hp front
    rw [turnsFrom_cons, turnsFrom_cons, h.owed, hstep]
    split
    · have hnext : Moved d (s.take b (step style s.mode s.behind b rest))
          (s'.take b (step style s.mode s.behind b rest)) := by
        refine ⟨rfl, rfl, ?_, b :: front, p, q, ?_, ?_, hp, hq⟩
        · simp only [State.take, h.line]
          split <;> omega
        · simp [State.take, hs]
        · simp [State.take, hs']
      have htail := ih hnext
      rw [Comment.markedLines, Comment.markedLines] at htail ⊢
      rw [List.filterMap_cons, List.filterMap_cons, htail]
      cases (step style s.mode s.behind b rest).marks <;> simp [h.line]
    · refine ih ⟨h.mode, ?_, h.line, b :: front, p, q, ?_, ?_, hp, hq⟩
      · simp [State.pass, h.owed]
      · simp [State.pass, hs]
      · simp [State.pass, hs']

theorem beginsLine_of_getLast? {t : Text} (h : t.getLast? = some '\n') (behind : List UInt8) :
    BeginsLine (t.utf8.reverse ++ behind) := by
  obtain ⟨u, hutf⟩ := Text.exists_utf8_of_getLast? h
  rw [hutf, List.reverse_append]
  intro b hb
  exact (Option.some.inj hb).symm

theorem line_beyond_start (t : Text) : (State.start.beyond t.utf8 .code).line = t.count '\n' := by
  rw [State.beyond, Text.count_newline]
  exact Nat.zero_add _

/-- Where the pass settles at the end of some lines, it marks the lines behind them as it would if
they came first. -/
theorem Settles.markedLines {style : CommentStyle} {a b : Text} (h : Settles style a b)
    (hend : a.getLast? = some '\n') : ∃ front : List Nat, (∀ n ∈ front, n < a.count '\n') ∧
      front = Comment.markedLines (turnsOver style .start a.utf8 b.utf8) ∧
      Comment.markedLines (turns style (a ++ b)) =
        front ++ (Comment.markedLines (turns style b)).map (· + a.count '\n') := by
  have hmoved : Moved (a.count '\n') .start (State.start.beyond a.utf8 .code) := by
    refine ⟨rfl, rfl, ?_, [], [], _, rfl, rfl, nofun,
      beginsLine_of_getLast? hend _⟩
    rw [line_beyond_start]
    exact (Nat.zero_add _).symm
  refine ⟨_, fun n => lt_count_of_mem_markedLines hend, rfl, ?_⟩
  rw [turns, Text.utf8_append, turnsFrom_append, h.reaches, markedLines_append, hmoved.markedLines]
  rfl

end ClosureLint.Comment
