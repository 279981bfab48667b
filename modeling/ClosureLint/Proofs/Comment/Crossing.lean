import ClosureLint.Comment.Scan

/-! What the pass does on a stretch of text. The turns over a text split at any byte: those before
it, taken with the rest of the text in sight, and those behind it, taken from the state that the
first ones lead to. A crossing says what a stretch does to the state and which lines are marked on
the way, and crossings of adjacent stretches compose. -/

namespace ClosureLint.Comment

/-- The state behind the bytes `front`, with the bytes `rest` still ahead. -/
def stateAfter (style : CommentStyle) : State → (front rest : List UInt8) → State
  | s, [], _ => s
  | s, b :: front, rest =>
    if s.owed = 0 then
      stateAfter style (s.take b (step style s.mode s.behind b (front ++ rest))) front rest
    else stateAfter style (s.pass b) front rest

def turnsOver (style : CommentStyle) : State → (front rest : List UInt8) → List Turn
  | _, [], _ => []
  | s, b :: front, rest =>
    if s.owed = 0 then
      ⟨s, step style s.mode s.behind b (front ++ rest)⟩ ::
        turnsOver style (s.take b (step style s.mode s.behind b (front ++ rest))) front rest
    else turnsOver style (s.pass b) front rest

theorem stateAfter_append (style : CommentStyle) (s : State) (a b rest : List UInt8) :
    stateAfter style s (a ++ b) rest =
      stateAfter style (stateAfter style s a (b ++ rest)) b rest := by
  induction a generalizing s with
  | nil => rfl
  | cons x a ih =>
    simp only [List.cons_append, stateAfter, List.append_assoc]
    split
    · exact ih _
    · exact ih _

theorem turnsOver_append (style : CommentStyle) (s : State) (a b rest : List UInt8) :
    turnsOver style s (a ++ b) rest =
      turnsOver style s a (b ++ rest) ++
        turnsOver style (stateAfter style s a (b ++ rest)) b rest := by
  induction a generalizing s with
  | nil => rfl
  | cons x a ih =>
    simp only [List.cons_append, turnsOver, stateAfter, List.append_assoc]
    split
    · rw [ih, List.cons_append]
    · exact ih _

theorem turnsFrom_append (style : CommentStyle) (s : State) (front rest : List UInt8) :
    turnsFrom style s (front ++ rest) =
      turnsOver style s front rest ++ turnsFrom style (stateAfter style s front rest) rest := by
  induction front generalizing s with
  | nil => rfl
  | cons b front ih =>
    rw [List.cons_append, turnsFrom_cons, turnsOver, stateAfter]
    split
    · rw [ih, List.cons_append]
    · exact ih _

theorem turnsFrom_eq_turnsOver (style : CommentStyle) (s : State) (bytes : List UInt8) :
    turnsFrom style s bytes = turnsOver style s bytes [] := by
  have hsplit := turnsFrom_append style s bytes []
  rwa [List.append_nil, turnsFrom_nil, List.append_nil] at hsplit

theorem markedLines_append (ts us : List Turn) :
    markedLines (ts ++ us) = markedLines ts ++ markedLines us :=
  List.filterMap_append

theorem stateAfter_place (style : CommentStyle) (s : State) (front rest : List UInt8) :
    (stateAfter style s front rest).offset = s.offset + front.length ∧
      (stateAfter style s front rest).behind = front.reverse ++ s.behind := by
  induction front generalizing s with
  | nil => exact ⟨rfl, rfl⟩
  | cons b front ih =>
    rw [stateAfter, List.length_cons, List.reverse_cons, List.append_assoc]
    split
    · obtain ⟨hoffset, hbehind⟩ := ih (s.take b (step style s.mode s.behind b (front ++ rest)))
      refine ⟨?_, hbehind⟩
      rw [hoffset]
      simp only [State.take]
      omega
    · obtain ⟨hoffset, hbehind⟩ := ih (s.pass b)
      refine ⟨?_, hbehind⟩
      rw [hoffset]
      simp only [State.pass]
      omega

/-! ### Crossings -/

/-- The state behind the bytes `front` of a pass that has counted every newline in them and owes
nothing. -/
def State.beyond (s : State) (front : List UInt8) (mode : Mode) : State where
  mode := mode
  line := s.line + front.count 0x0a
  offset := s.offset + front.length
  behind := front.reverse ++ s.behind
  owed := 0

theorem State.beyond_nil {s : State} (h : s.owed = 0) : s.beyond [] s.mode = s := by
  cases s
  simp_all [State.beyond]

theorem State.beyond_beyond (s : State) (a b : List UInt8) (m n : Mode) :
    (s.beyond a m).beyond b n = s.beyond (a ++ b) n := by
  simp [State.beyond, Nat.add_assoc]

/-- The pass crosses the bytes `front`, with `rest` ahead, into a mode, and marks the lines in
`ink` on its way. -/
structure Crosses (style : CommentStyle) (s : State) (front rest : List UInt8) (mode : Mode)
    (ink : List Nat) : Prop where
  reaches : stateAfter style s front rest = s.beyond front mode
  marks : ∀ n, n ∈ markedLines (turnsOver style s front rest) ↔ n ∈ ink

namespace Crosses

variable {style : CommentStyle} {s : State} {a b rest : List UInt8} {m n : Mode} {i j : List Nat}

theorem nil (h : s.owed = 0) : Crosses style s [] rest s.mode [] :=
  ⟨(State.beyond_nil h).symm, by simp [turnsOver, markedLines]⟩

theorem append (ha : Crosses style s a (b ++ rest) m i)
    (hb : Crosses style (s.beyond a m) b rest n j) : Crosses style s (a ++ b) rest n (i ++ j) := by
  constructor
  · rw [stateAfter_append, ha.reaches, hb.reaches, State.beyond_beyond]
  · intro k
    rw [turnsOver_append, markedLines_append, List.mem_append, List.mem_append, ha.reaches,
      ha.marks, hb.marks]

theorem congr (h : Crosses style s a b m i) (hij : ∀ n, n ∈ i ↔ n ∈ j) : Crosses style s a b m j :=
  ⟨h.reaches, fun n => (h.marks n).trans (hij n)⟩

/-- The bytes that a turn still owes are crossed without a further turn. -/
theorem owed_run (front : List UInt8) (h : s.owed = front.length) :
    stateAfter style s front rest =
        { s with
          offset := s.offset + front.length, behind := front.reverse ++ s.behind, owed := 0 } ∧
      turnsOver style s front rest = [] := by
  induction front generalizing s with
  | nil =>
    cases s
    simp_all [stateAfter, turnsOver]
  | cons b front ih =>
    have hs : (s.pass b).owed = front.length := by simp [State.pass, h]
    have hne : s.owed ≠ 0 := by simp [h]
    simp only [stateAfter, turnsOver, if_neg hne]
    refine ⟨?_, (ih hs).2⟩
    rw [(ih hs).1]
    simp [State.pass, Nat.add_comm, Nat.add_left_comm]

/-- A turn crosses the bytes that it consumes, if no newline is among them. -/
theorem turn {x : UInt8} {marks : Bool} (h : s.owed = 0)
    (hstep : step style s.mode s.behind x (a ++ rest) = ⟨a.length + 1, m, marks, false⟩)
    (hx : 0x0a ∉ x :: a) : Crosses style s (x :: a) rest m (if marks then [s.line] else []) := by
  have hrun := @owed_run style (s.take x ⟨a.length + 1, m, marks, false⟩) rest a
    (by simp [State.take])
  constructor
  · rw [stateAfter, if_pos h, hstep, hrun.1]
    simp [State.beyond, State.take, List.count_eq_zero.mpr hx, Nat.add_comm, Nat.add_left_comm]
  · intro k
    rw [turnsOver, if_pos h, hstep, hrun.2]
    cases marks <;> simp [markedLines]

/-- A newline is crossed in a turn of its own. -/
theorem newline (h : s.owed = 0) :
    Crosses style s [0x0a] rest (if s.mode = .lineComment then .code else s.mode) [] := by
  constructor
  · simp [stateAfter, h, step, State.take, State.beyond]
  · simp [turnsOver, h, step, markedLines]

end Crosses

end ClosureLint.Comment
