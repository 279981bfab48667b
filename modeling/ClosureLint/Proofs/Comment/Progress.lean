import ClosureLint.Proofs.Comment.Indexed

/-! The pass as a loop over offsets. As long as the offset is inside the text, a turn is read there,
and the loop goes on behind the bytes that the turn takes. Nothing in the loop makes it end or keeps
it inside the text: every width that a turn can have must be positive, and no larger than what is
left. So it ends, at the end of the text, after the turns of the pass. What one turn does to the
mode then carries over to all of them: how deep block comments are, and that a raw string is closed
with as many hashes as it was opened with. -/

namespace ClosureLint.Comment

variable {style : CommentStyle} {s last : State} {m : Mode} {behind rest bytes : List UInt8}
  {b : UInt8} {hashes : Nat}

/-! ### The width of a turn -/

theorem markerWidth_le {marker : Text} (h : occurs marker bytes = true) :
    markerWidth marker ≤ bytes.length := by
  have hlength := congrArg List.length (take_markerWidth h)
  rw [List.length_take, Text.length_utf8, ← markerWidth] at hlength
  omega

theorem charLiteralWidth?_le {width : Nat} (h : charLiteralWidth? b rest = some width) :
    width ≤ rest.length + 1 := by
  rw [charLiteralWidth?.eq_def, Option.ite_none_right_eq_some] at h
  obtain ⟨-, h⟩ := h
  split at h
  case h_2 y tail =>
    obtain ⟨k, hk, rfl⟩ := Option.map_eq_some_iff.mp h
    have hlt := (List.findIdx?_eq_some_iff_getElem.mp hk).1
    rw [List.length_take] at hlt
    simp only [List.length_cons]
    omega
  case h_6 lead tail _ _ _ _ =>
    obtain ⟨hquote, hwidth⟩ := Option.ite_none_right_eq_some.mp h
    cases hwidth
    have hlt := (List.getElem?_eq_some_iff.mp hquote).1
    omega
  all_goals cases h

theorem stepBlock_width_le (depth : Nat) :
    (stepBlock style depth (b :: rest)).width ≤ rest.length + 1 := by
  rw [stepBlock]
  split
  next h => exact markerWidth_le (Bool.and_eq_true_iff.mp h).2
  next =>
    split
    next h => exact markerWidth_le h
    next => exact Nat.succ_pos _

theorem stepQuoted_width_le : (stepQuoted b rest).width ≤ rest.length + 1 := by
  rw [stepQuoted]
  split
  next h =>
    -- An escape is not the last byte.
    cases rest with
    | nil => cases (Bool.and_eq_true_iff.mp h).2
    | cons x rest => exact Nat.succ_le_succ (Nat.succ_pos _)
  next => split <;> exact Nat.succ_pos _

theorem stepRaw_width_le : (stepRaw hashes b rest).width ≤ rest.length + 1 := by
  rw [stepRaw]
  split
  next h =>
    have hle := (List.isPrefixOf_iff_prefix.mp (Bool.and_eq_true_iff.mp h).2).length_le
    rw [List.length_replicate] at hle
    show 1 + hashes ≤ rest.length + 1
    omega
  next => exact Nat.succ_pos _

theorem stepCode_width_le : (stepCode style behind b rest).width ≤ rest.length + 1 := by
  rw [stepCode]
  split
  next h => exact markerWidth_le h
  split
  next h => exact markerWidth_le h
  split
  next n h =>
    obtain ⟨-, tail, rfl⟩ := rawHashes?_eq_some (Option.ite_none_right_eq_some.mp h).2
    rw [List.length_append, List.length_replicate, List.length_cons]
    show n + 2 ≤ _
    omega
  next =>
    split
    · exact Nat.succ_pos _
    split
    next h => exact charLiteralWidth?_le (Option.ite_none_right_eq_some.mp h).2
    next => exact Nat.succ_pos _

theorem step_width_le (style : CommentStyle) (m : Mode) (behind : List UInt8) (b : UInt8)
    (rest : List UInt8) : (step style m behind b rest).width ≤ rest.length + 1 := by
  rw [step.eq_def]
  split
  · exact Nat.succ_pos _
  · cases m with
    | lineComment => exact Nat.succ_pos _
    | block depth => exact stepBlock_width_le depth
    | quoted => exact stepQuoted_width_le
    | rawQuoted hashes => exact stepRaw_width_le
    | code => exact stepCode_width_le

/-! ### The depth of block comments -/

/-- A block comment is at least one level deep, and exactly one where block comments do not nest. -/
def Mode.DepthFits (style : CommentStyle) : Mode → Prop
  | .block depth => 1 ≤ depth ∧ (style.nestedBlocks = false → depth = 1)
  | _ => True

theorem depthFits_stepBlock {depth : Nat} (h : (Mode.block depth).DepthFits style) :
    (stepBlock style depth bytes).next.DepthFits style := by
  obtain ⟨hpos, hflat⟩ := h
  rw [stepBlock]
  split
  next hopen =>
    refine ⟨Nat.succ_pos _, fun hnested => ?_⟩
    rw [hnested, Bool.false_and] at hopen
    cases hopen
  next =>
    split
    next =>
      show (closeBlock depth).DepthFits style
      rw [closeBlock]
      split
      · trivial
      next hdeep =>
        refine ⟨by omega, fun hnested => ?_⟩
        have := hflat hnested
        omega
    next => exact ⟨hpos, hflat⟩

theorem depthFits_stepCode : (stepCode style behind b rest).next.DepthFits style := by
  rw [stepCode]
  split
  · trivial
  split
  · exact ⟨Nat.le_refl _, fun _ => rfl⟩
  split
  · trivial
  · repeat' split
    all_goals trivial

theorem depthFits_step (h : m.DepthFits style) :
    (step style m behind b rest).next.DepthFits style := by
  rw [step.eq_def]
  split
  · show (if m = .lineComment then Mode.code else m).DepthFits style
    split
    · trivial
    · exact h
  · cases m with
    | lineComment => trivial
    | block depth => exact depthFits_stepBlock h
    | quoted =>
      show (stepQuoted b rest).next.DepthFits style
      rw [stepQuoted]
      repeat' split
      all_goals trivial
    | rawQuoted hashes =>
      show (stepRaw hashes b rest).next.DepthFits style
      rw [stepRaw]
      split <;> trivial
    | code => exact depthFits_stepCode

/-! ### The ends of raw strings -/

def rawOpening (hashes : Nat) : List UInt8 := 0x72 :: (List.replicate hashes 0x23 ++ [0x22])

def rawClosing (hashes : Nat) : List UInt8 := 0x22 :: List.replicate hashes 0x23

theorem rawOpening_of_hashes (h : rawHashes? behind b rest = some hashes) :
    rawOpening hashes <+: b :: rest := by
  obtain ⟨rfl, tail, rfl⟩ := rawHashes?_eq_some h
  exact ⟨tail, by simp [rawOpening]⟩

theorem length_rawOpening : (rawOpening hashes).length = hashes + 2 := by
  simp [rawOpening]

theorem length_rawClosing : (rawClosing hashes).length = 1 + hashes := by
  simp [rawClosing, Nat.add_comm]

theorem rawClosing_prefix_iff : rawClosing hashes <+: b :: rest ↔
    (b == 0x22 && (List.replicate hashes (0x23 : UInt8)).isPrefixOf rest) = true := by
  rw [rawClosing, List.cons_prefix_cons, Bool.and_eq_true, beq_iff_eq, List.isPrefixOf_iff_prefix,
    eq_comm]

theorem next_stepBlock_ne_rawQuoted {depth : Nat} :
    (stepBlock style depth bytes).next ≠ .rawQuoted hashes := by
  intro h
  rw [stepBlock] at h
  split at h
  · cases h
  split at h
  · rw [closeBlock] at h
    split at h <;> cases h
  · cases h

theorem opens_of_next_stepCode (h : (stepCode style behind b rest).next = .rawQuoted hashes) :
    rawOpening hashes <+: b :: rest ∧
      (stepCode style behind b rest).width = (rawOpening hashes).length := by
  rw [stepCode] at h ⊢
  split at h
  · cases h
  next hline =>
    rw [if_neg hline]
    split at h
    · cases h
    next hopen =>
      rw [if_neg hopen]
      split at h
      next n hraw =>
        cases h
        exact ⟨rawOpening_of_hashes (Option.ite_none_right_eq_some.mp hraw).2,
          length_rawOpening.symm⟩
      next =>
        split at h
        · cases h
        · split at h <;> cases h

/-- A turn that leads into a raw string stays in it or opens it. -/
theorem stays_or_opens (h : (step style m behind b rest).next = .rawQuoted hashes) :
    m = .rawQuoted hashes ∨ m = .code ∧ rawOpening hashes <+: b :: rest ∧
      (step style m behind b rest).width = (rawOpening hashes).length := by
  rw [step.eq_def] at h ⊢
  split at h
  next hb =>
    left
    simp only at h
    split at h
    · cases h
    · exact h
  next hb =>
    rw [if_neg hb]
    cases m with
    | lineComment => cases h
    | block depth => exact absurd h next_stepBlock_ne_rawQuoted
    | quoted =>
      simp only [stepQuoted] at h
      repeat' split at h
      all_goals cases h
    | rawQuoted n =>
      simp only [stepRaw] at h
      split at h
      · cases h
      · exact .inl h
    | code => exact .inr ⟨rfl, opens_of_next_stepCode h⟩

/-- A turn leaves a raw string where a quote and as many hashes are next, and takes them. -/
theorem next_rawQuoted_eq_code :
    (step style (.rawQuoted hashes) behind b rest).next = .code ↔
      rawClosing hashes <+: b :: rest := by
  rw [rawClosing_prefix_iff]
  by_cases hb : b = 0x0a
  · subst hb
    rw [step_newline]
    simp
  · rw [step.eq_def, if_neg (by simpa using hb)]
    simp only [stepRaw]
    split <;> simp_all

theorem width_of_rawClosing (h : rawClosing hashes <+: b :: rest) :
    (step style (.rawQuoted hashes) behind b rest).width = (rawClosing hashes).length := by
  have hclosing := rawClosing_prefix_iff.mp h
  obtain rfl : b = 0x22 := beq_iff_eq.mp (Bool.and_eq_true_iff.mp hclosing).1
  rw [length_rawClosing]
  show (stepRaw hashes 0x22 rest).width = 1 + hashes
  rw [stepRaw, if_pos hclosing]

/-! ### The loop -/

/-- A turn begins in this state, at an offset of the text or at its end. -/
structure State.Rests (s : State) (bytes : List UInt8) : Prop where
  le : s.offset ≤ bytes.length
  behind : s.behind = (bytes.take s.offset).reverse
  owed : s.owed = 0

/-- The state in which a turn leaves the pass: behind the bytes that it takes. -/
def Turn.after (t : Turn) (bytes : List UInt8) : State where
  mode := t.step.next
  line := if t.step.breaks then t.state.line + 1 else t.state.line
  offset := t.state.offset + t.step.width
  behind := (bytes.take (t.state.offset + t.step.width)).reverse
  owed := 0

/-- The turn reads nothing outside the text, and the loop goes on further ahead, at an offset of the
text or at its end. -/
structure Turn.InBounds (style : CommentStyle) (bytes : List UInt8) (t : Turn) : Prop where
  inside : t.state.offset < bytes.length
  reads : stepAt style t.state.mode bytes t.state.offset = .ok t.step
  advances : t.state.offset < (t.after bytes).offset
  fits : (t.after bytes).offset ≤ bytes.length

structure Turn.Opens (t : Turn) (bytes : List UInt8) (hashes : Nat) : Prop where
  mode : t.state.mode = .code
  next : t.step.next = .rawQuoted hashes
  taken : t.taken 0 bytes = rawOpening hashes

/-- The loop over a text from one state to the one in which it ends, and the turns that it takes. It
goes on as long as its offset is inside the text. A turn that reads outside the text has no place in
it, and a loop that goes on for ever leads to no state. -/
inductive ScansTo (style : CommentStyle) (bytes : List UInt8) : State → List Turn → State → Prop
  | done {s : State} (hend : bytes.length ≤ s.offset) : ScansTo style bytes s [] s
  | turn {s last : State} {d : Step} {ts : List Turn} (hinside : s.offset < bytes.length)
      (hstep : stepAt style s.mode bytes s.offset = .ok d)
      (hrest : ScansTo style bytes (Turn.after ⟨s, d⟩ bytes) ts last) :
      ScansTo style bytes s (⟨s, d⟩ :: ts) last

theorem Turn.taken_eq {t : Turn} {front : List UInt8} (h : front <+: bytes.drop t.state.offset)
    (hwidth : t.step.width = front.length) : t.taken 0 bytes = front := by
  obtain ⟨tail, htail⟩ := h
  rw [Turn.taken, Nat.sub_zero, ← htail, hwidth, List.take_left]

theorem step_of_stepAt {d : Step} (h : s.offset < bytes.length)
    (hstep : stepAt style s.mode bytes s.offset = .ok d) : ∃ behind b rest,
      bytes.drop s.offset = b :: rest ∧ d = step style s.mode behind b rest := by
  rw [stepAt_eq style s.mode h, Except.ok.injEq] at hstep
  exact ⟨_, _, _, List.drop_eq_getElem_cons h, hstep.symm⟩

/-- The offset grows in a turn, and stays inside the text or at its end. -/
theorem width_of_stepAt {d : Step} (h : s.offset < bytes.length)
    (hstep : stepAt style s.mode bytes s.offset = .ok d) :
    0 < d.width ∧ s.offset + d.width ≤ bytes.length := by
  obtain ⟨behind, b, rest, hdrop, rfl⟩ := step_of_stepAt h hstep
  have hlength := congrArg List.length hdrop
  have hle := step_width_le style s.mode behind b rest
  rw [List.length_drop, List.length_cons] at hlength
  exact ⟨step_width_pos .., by omega⟩

theorem exists_owed {i width : Nat} (h : i < bytes.length) (hpos : 0 < width)
    (hfits : i + width ≤ bytes.length) : ∃ owed : List UInt8, owed.length = width - 1 ∧
      bytes.drop (i + 1) = owed ++ bytes.drop (i + width) ∧
      bytes.take (i + width) = bytes.take i ++ bytes[i] :: owed := by
  obtain ⟨n, rfl⟩ : ∃ n, width = n + 1 := ⟨width - 1, by omega⟩
  refine ⟨(bytes.drop (i + 1)).take n, ?_, ?_, ?_⟩
  · rw [List.length_take, List.length_drop]
    omega
  · have hdrop : bytes.drop (i + (n + 1)) = (bytes.drop (i + 1)).drop n := by
      rw [List.drop_drop, Nat.add_comm n 1, Nat.add_assoc]
    rw [hdrop, List.take_append_drop]
  · rw [List.take_add, List.drop_eq_getElem_cons h, List.take_succ_cons]

/-- Through the bytes that a turn owes, the pass comes where the loop goes on. -/
theorem turnsFrom_take (hs : s.Rests bytes) (h : s.offset < bytes.length) {d : Step}
    (hpos : 0 < d.width) (hfits : s.offset + d.width ≤ bytes.length) :
    turnsFrom style (s.take bytes[s.offset] d) (bytes.drop (s.offset + 1)) =
      turnsFrom style (Turn.after ⟨s, d⟩ bytes) (bytes.drop (s.offset + d.width)) := by
  obtain ⟨owed, hlength, hdrop, htake⟩ := exists_owed h hpos hfits
  obtain ⟨hstate, hnone⟩ := @Crosses.owed_run style (s.take bytes[s.offset] d)
    (bytes.drop (s.offset + d.width)) owed hlength.symm
  have hafter : stateAfter style (s.take bytes[s.offset] d) owed (bytes.drop (s.offset + d.width)) =
      Turn.after ⟨s, d⟩ bytes := by
    rw [hstate, Turn.after, htake, List.reverse_append, List.reverse_cons, ← hs.behind,
      List.append_assoc, List.singleton_append, State.mk.injEq]
    refine ⟨rfl, rfl, ?_, rfl, rfl⟩
    show s.offset + 1 + owed.length = s.offset + d.width
    omega
  rw [hdrop, turnsFrom_append, hnone, List.nil_append, hafter]

/-- A turn of the pass is the turn at its offset, and the pass goes on behind it. -/
theorem turnsFrom_turn (style : CommentStyle) (hs : s.Rests bytes) (h : s.offset < bytes.length) :
    ∃ d, stepAt style s.mode bytes s.offset = .ok d ∧
      turnsFrom style s (bytes.drop s.offset) =
        ⟨s, d⟩ :: turnsFrom style (Turn.after ⟨s, d⟩ bytes) (bytes.drop (s.offset + d.width)) := by
  have hstep := stepAt_eq style s.mode h
  rw [← hs.behind] at hstep
  obtain ⟨hpos, hfits⟩ := width_of_stepAt h hstep
  refine ⟨_, hstep, ?_⟩
  rw [List.drop_eq_getElem_cons h, turnsFrom_cons, if_pos hs.owed, turnsFrom_take hs h hpos hfits]

theorem Turn.rests_after {t : Turn} (h : t.state.offset + t.step.width ≤ bytes.length) :
    (t.after bytes).Rests bytes :=
  ⟨h, rfl, rfl⟩

/-- From every state in which a turn may begin the loop comes to the end of the text, and takes the
turns of the pass on its way. -/
theorem exists_scansTo (style : CommentStyle) (hs : s.Rests bytes) :
    ∃ last, ScansTo style bytes s (turnsFrom style s (bytes.drop s.offset)) last ∧
      last.offset = bytes.length := by
  -- On the bytes that are left: a turn takes some of them, since its width is positive.
  induction hgap : bytes.length - s.offset using Nat.strongRecOn generalizing s with
  | ind gap ih =>
    by_cases h : s.offset < bytes.length
    · obtain ⟨d, hstep, hturns⟩ := turnsFrom_turn style hs h
      obtain ⟨hpos, hfits⟩ := width_of_stepAt h hstep
      have hafter : (Turn.after ⟨s, d⟩ bytes).Rests bytes := Turn.rests_after hfits
      have hless : bytes.length - (s.offset + d.width) < gap := by omega
      obtain ⟨last, hscan, hlast⟩ := ih _ hless hafter rfl
      rw [hturns]
      exact ⟨last, .turn h hstep hscan, hlast⟩
    · rw [List.drop_eq_nil_of_le (by omega), turnsFrom_nil]
      exact ⟨s, .done (by omega), Nat.le_antisymm hs.le (by omega)⟩

namespace ScansTo

variable {ts us : List Turn} {last' : State}

theorem unique (h : ScansTo style bytes s ts last) (h' : ScansTo style bytes s us last') :
    us = ts ∧ last' = last := by
  induction h generalizing us with
  | done hend =>
    cases h' with
    | done => exact ⟨rfl, rfl⟩
    | turn hinside => omega
  | turn hinside hstep hrest ih =>
    cases h' with
    | done hend => omega
    | turn _ hstep' hrest' =>
      rw [hstep, Except.ok.injEq] at hstep'
      subst hstep'
      obtain ⟨rfl, rfl⟩ := ih hrest'
      exact ⟨rfl, rfl⟩

theorem inBounds (h : ScansTo style bytes s ts last) {t : Turn} (ht : t ∈ ts) :
    t.InBounds style bytes := by
  induction h with
  | done => cases ht
  | turn hinside hstep hrest ih =>
    rcases List.mem_cons.mp ht with rfl | ht
    · obtain ⟨hpos, hfits⟩ := width_of_stepAt hinside hstep
      exact ⟨hinside, hstep, Nat.lt_add_of_pos_right hpos, hfits⟩
    · exact ih ht

theorem depthFits (h : ScansTo style bytes s ts last) (hs : s.mode.DepthFits style) :
    (∀ t ∈ ts, t.state.mode.DepthFits style) ∧ last.mode.DepthFits style := by
  induction h with
  | done => exact ⟨nofun, hs⟩
  | @turn s last d ts hinside hstep hrest ih =>
    have hnext : d.next.DepthFits style := by
      obtain ⟨behind, b, rest, -, rfl⟩ := step_of_stepAt hinside hstep
      exact depthFits_step hs
    obtain ⟨hturns, hlast⟩ := ih hnext
    exact ⟨List.forall_mem_cons.mpr ⟨hs, hturns⟩, hlast⟩

/-- A turn in a raw string has a turn before it that opens the string, with all turns between the
two in it, unless the loop has been in the string from the start. -/
theorem opener (h : ScansTo style bytes s ts last) {before behind : List Turn} {t : Turn}
    (hts : ts = before ++ t :: behind) (ht : t.state.mode = .rawQuoted hashes) :
    (s.mode = .rawQuoted hashes ∧ ∀ u ∈ before, u.state.mode = .rawQuoted hashes) ∨
      ∃ earlier opener within, before = earlier ++ opener :: within ∧
        opener.Opens bytes hashes ∧ ∀ u ∈ within, u.state.mode = .rawQuoted hashes := by
  induction h generalizing before with
  | done => simp at hts
  | @turn s last d ts hinside hstep hrest ih =>
    cases before with
    | nil =>
      obtain ⟨rfl, -⟩ := List.cons.inj hts
      exact .inl ⟨ht, nofun⟩
    | cons first before =>
      obtain ⟨rfl, htail⟩ := List.cons.inj hts
      rcases ih htail with ⟨hnext, hwithin⟩ | ⟨earlier, opener, within, rfl, hopens, hwithin⟩
      · -- Behind this turn the loop is in the string; it has been there before or it opens it here.
        obtain ⟨behind, b, rest, hdrop, rfl⟩ := step_of_stepAt hinside hstep
        rcases stays_or_opens hnext with hmode | ⟨hmode, hopening, hwidth⟩
        · exact .inl ⟨hmode, List.forall_mem_cons.mpr ⟨hmode, hwithin⟩⟩
        · rw [← hdrop] at hopening
          exact .inr ⟨[], _, before, rfl, ⟨hmode, hnext, Turn.taken_eq hopening hwidth⟩, hwithin⟩
      · exact .inr ⟨_ :: earlier, opener, within, rfl, hopens, hwithin⟩

end ScansTo

/-- In a raw string, a turn closes it where a quote and as many hashes are next, and takes them. -/
theorem Turn.InBounds.closes_iff {t : Turn} (h : t.InBounds style bytes)
    (hmode : t.state.mode = .rawQuoted hashes) :
    (t.step.next = .code ↔ rawClosing hashes <+: bytes.drop t.state.offset) ∧
      (t.step.next = .code → t.taken 0 bytes = rawClosing hashes) := by
  obtain ⟨behind, b, rest, hdrop, hstep⟩ := step_of_stepAt h.inside h.reads
  rw [hmode] at hstep
  have hiff : t.step.next = .code ↔ rawClosing hashes <+: bytes.drop t.state.offset := by
    rw [hdrop, hstep]
    exact next_rawQuoted_eq_code
  refine ⟨hiff, fun hnext => Turn.taken_eq (hiff.mp hnext) ?_⟩
  have hclosing := hiff.mp hnext
  rw [hdrop] at hclosing
  rw [hstep, width_of_rawClosing hclosing]

theorem rests_start : State.start.Rests bytes := ⟨Nat.zero_le _, rfl, rfl⟩

/-- Whatever the text and the comment style, the loop ends, and in one way only: at the end of the
text, after the turns of the pass. Each turn reads nothing outside the text and takes one byte at
least, and none beyond the end. A block comment is always at least one level deep, and exactly one
where block comments do not nest. A raw string is left where a quote and as many hashes are next as
its opener had, in a turn that takes exactly these. -/
theorem turns_progress (style : CommentStyle) (text : Text) :
    (∃ last, ScansTo style text.utf8 .start (turns style text) last ∧
      last.offset = text.byteLength ∧ last.mode.DepthFits style ∧
      ∀ ts s, ScansTo style text.utf8 .start ts s → ts = turns style text ∧ s = last) ∧
    (∀ t ∈ turns style text, t.InBounds style text.utf8 ∧ t.state.mode.DepthFits style) ∧
    ∀ before t behind hashes, turns style text = before ++ t :: behind →
      t.state.mode = .rawQuoted hashes →
      (∃ earlier opener within, before = earlier ++ opener :: within ∧
        opener.Opens text.utf8 hashes ∧ ∀ u ∈ within, u.state.mode = .rawQuoted hashes) ∧
      (t.step.next = .code ↔ rawClosing hashes <+: text.utf8.drop t.state.offset) ∧
      (t.step.next = .code → t.taken 0 text.utf8 = rawClosing hashes) := by
  obtain ⟨last, hscan, hlast⟩ := @exists_scansTo .start text.utf8 style rests_start
  rw [show text.utf8.drop State.start.offset = text.utf8 from rfl] at hscan
  obtain ⟨hturns, hend⟩ := hscan.depthFits trivial
  rw [Text.length_utf8] at hlast
  refine ⟨⟨last, hscan, hlast, hend, fun ts s h => hscan.unique h⟩,
    fun t ht => ⟨hscan.inBounds ht, hturns t ht⟩, fun before t behind hashes hts ht => ?_⟩
  have hinside : t ∈ turns style text := by
    rw [hts]
    exact List.mem_append_right _ (List.mem_cons_self ..)
  refine ⟨?_, (hscan.inBounds hinside).closes_iff ht⟩
  rcases hscan.opener hts ht with ⟨hstart, -⟩ | hopener
  · cases hstart
  · exact hopener

/-- A style without line comments, in which a quote is part of both markers of a block comment and
block comments do not nest. -/
def tangled : CommentStyle := ⟨[], "(\"".toList, "\")".toList, false, true, true⟩

/-- A comment with an opener in it, a raw string with a quote and a hash in it, and an escape that
the text ends in. -/
def cutOff : Text := "(\"x(\"\") br##\"a\"#\"## '\\".toList

theorem turns_progress_tangled : ∃ before t behind,
    turns tangled cutOff = before ++ t :: behind ∧ t.state.mode = .rawQuoted 2 ∧
      t.step.next = .code ∧ t.taken 0 cutOff.utf8 = [0x22, 0x23, 0x23] ∧
      (∃ opener ∈ before, opener.taken 0 cutOff.utf8 = [0x72, 0x23, 0x23, 0x22]) ∧
      t.InBounds tangled cutOff.utf8 ∧
      ∃ last, ScansTo tangled cutOff.utf8 .start (turns tangled cutOff) last ∧
        last.offset = 22 := by
  obtain ⟨⟨last, hscan, hlast, -⟩, hturns, hraw⟩ := turns_progress tangled cutOff
  have hlt : 11 < (turns tangled cutOff).length := by decide
  have hsplit : turns tangled cutOff = (turns tangled cutOff).take 11 ++
      (turns tangled cutOff)[11] :: (turns tangled cutOff).drop 12 := by
    rw [← List.drop_eq_getElem_cons hlt, List.take_append_drop]
  have hmode : (turns tangled cutOff)[11].state.mode = .rawQuoted 2 := by decide +revert
  have hnext : (turns tangled cutOff)[11].step.next = .code := by decide +revert
  obtain ⟨⟨earlier, opener, within, hbefore, hopens, -⟩, -, hcloses⟩ := hraw _ _ _ 2 hsplit hmode
  refine ⟨_, _, _, hsplit, hmode, hnext, hcloses hnext, ⟨opener, ?_, hopens.taken⟩,
    (hturns _ (List.getElem_mem hlt)).1, last, hscan, hlast⟩
  rw [hbefore]
  exact List.mem_append_right _ (List.mem_cons_self ..)

end ClosureLint.Comment
