import ClosureLint.Proofs.Comment.Newlines
import ClosureLint.Proofs.Comment.Restart

/-! Carriage returns in front of newlines. A return is blank and no part of a marker, so the pass
takes a turn on it that changes nothing, or takes it along with the backslash in front of it. Up to
there the turns over a text and over the same text with returns are the same, provided that no
character literal holds a newline: a return inside a literal could move its quote out of reach. -/

namespace ClosureLint

namespace Comment

/-- The bytes with a carriage return in front of each newline. -/
def addReturns : List UInt8 → List UInt8
  | [] => []
  | b :: bytes => if b = 0x0a then 0x0d :: 0x0a :: addReturns bytes else b :: addReturns bytes

variable {style : CommentStyle} {m : Mode} {behind rest front bytes : List UInt8} {b : UInt8}

theorem addReturns_newline (bytes : List UInt8) :
    addReturns (0x0a :: bytes) = 0x0d :: 0x0a :: addReturns bytes := rfl

theorem addReturns_cons (hb : b ≠ 0x0a) (bytes : List UInt8) :
    addReturns (b :: bytes) = b :: addReturns bytes := if_neg hb

theorem addReturns_append (front bytes : List UInt8) :
    addReturns (front ++ bytes) = addReturns front ++ addReturns bytes := by
  induction front with
  | nil => rfl
  | cons b front ih =>
    rw [List.cons_append, addReturns, addReturns, ih]
    split <;> rfl

theorem addReturns_eq_self (h : 0x0a ∉ front) : addReturns front = front := by
  induction front with
  | nil => rfl
  | cons b front ih =>
    rw [List.mem_cons, not_or] at h
    rw [addReturns_cons (Ne.symm h.1), ih h.2]

theorem addReturns_append_of_not_mem (h : 0x0a ∉ front) (bytes : List UInt8) :
    addReturns (front ++ bytes) = front ++ addReturns bytes := by
  rw [addReturns_append, addReturns_eq_self h]

theorem head?_addReturns (bytes : List UInt8) :
    (addReturns bytes).head? = bytes.head?.map fun b => if b = 0x0a then 0x0d else b := by
  cases bytes with
  | nil => rfl
  | cons b bytes =>
    rw [addReturns]
    split <;> simp [*]

theorem head?_addReturns_eq_some {x : UInt8} (hn : x ≠ 0x0a) (hr : x ≠ 0x0d) (bytes : List UInt8) :
    (addReturns bytes).head? = some x ↔ bytes.head? = some x := by
  rw [head?_addReturns, Option.map_eq_some_iff]
  constructor
  · rintro ⟨b, hb, hx⟩
    split at hx
    · exact absurd hx.symm hr
    · rw [hb, hx]
  · exact fun h => ⟨x, h, if_neg hn⟩

theorem mem_take_addReturns {x : UInt8} {n : Nat} (h : x ∈ (addReturns bytes).take n) :
    x = 0x0d ∨ x ∈ bytes.take n := by
  induction bytes generalizing n with
  | nil => exact .inr h
  | cons b bytes ih =>
    cases n with
    | zero => cases h
    | succ n =>
      by_cases hb : b = 0x0a
      · subst hb
        rw [addReturns_newline, List.take_succ_cons, List.mem_cons] at h
        rcases h with h | h
        · exact .inl h
        · cases n with
          | zero => cases h
          | succ n =>
            rw [List.take_succ_cons, List.mem_cons] at h
            rcases h with rfl | h
            · exact .inr (List.mem_cons_self ..)
            · refine (ih h).imp_right fun h => List.mem_cons_of_mem _ ?_
              exact List.take_subset_take_left _ (Nat.le_succ n) h
      · rw [addReturns_cons hb, List.take_succ_cons, List.mem_cons] at h
        rw [List.take_succ_cons, List.mem_cons]
        exact h.elim (fun h => .inr (.inl h)) fun h => (ih h).imp_right .inr

theorem isPrefixOf_addReturns {marker : List UInt8} (hn : 0x0a ∉ marker) (hr : 0x0d ∉ marker)
    (bytes : List UInt8) : marker.isPrefixOf (addReturns bytes) = marker.isPrefixOf bytes := by
  induction marker generalizing bytes with
  | nil => simp [List.isPrefixOf]
  | cons x marker ih =>
    rw [List.mem_cons, not_or] at hn hr
    cases bytes with
    | nil => rfl
    | cons b bytes =>
      by_cases hb : b = 0x0a
      · subst hb
        rw [addReturns_newline, List.isPrefixOf_cons_cons, List.isPrefixOf_cons_cons,
          beq_false_of_ne (Ne.symm hn.1), beq_false_of_ne (Ne.symm hr.1), Bool.false_and,
          Bool.false_and]
      · rw [addReturns_cons hb, List.isPrefixOf_cons_cons, List.isPrefixOf_cons_cons, ih hn.2 hr.2]

/-! ### Turns -/

theorem occurs_addReturns {marker : Text} (hn : '\n' ∉ marker) (hr : '\r' ∉ marker)
    (bytes : List UInt8) : occurs marker (addReturns bytes) = occurs marker bytes := by
  rw [occurs, occurs, isPrefixOf_addReturns]
  · exact mt (Text.mem_utf8 (c := '\n') (by decide) marker).mp hn
  · exact mt (Text.mem_utf8 (c := '\r') (by decide) marker).mp hr

theorem hashes_addReturns (rest : List UInt8) :
    (addReturns rest).takeWhile (· == 0x23) = rest.takeWhile (· == 0x23) ∧
      ((addReturns rest)[(rest.takeWhile (· == 0x23)).length]? = some 0x22 ↔
        rest[(rest.takeWhile (· == 0x23)).length]? = some 0x22) := by
  induction rest with
  | nil => simp [addReturns]
  | cons b rest ih =>
    by_cases hb : b = 0x0a
    · subst hb
      simp [addReturns_newline]
    · rw [addReturns_cons hb]
      by_cases hh : b = 0x23
      · subst hh
        simpa using ih
      · simp [hh]

theorem rawHashes?_addReturns (behind : List UInt8) (b : UInt8) (rest : List UInt8) :
    rawHashes? behind b (addReturns rest) = rawHashes? behind b rest := by
  obtain ⟨htake, hquote⟩ := hashes_addReturns rest
  simp only [rawHashes?, htake, hquote]

/-- A quote that is found with no newline in front of it is found at the same place, and returns
bring no other one within reach. -/
theorem findIdx?_addReturns {n : Nat}
    (h : ∀ k, (bytes.take n).findIdx? (· == 0x27) = some k → 0x0a ∉ bytes.take k) :
    ((addReturns bytes).take n).findIdx? (· == 0x27) = (bytes.take n).findIdx? (· == 0x27) := by
  induction bytes generalizing n with
  | nil => rfl
  | cons b bytes ih =>
    cases n with
    | zero => rfl
    | succ n =>
      by_cases hb : b = 0x0a
      · subst hb
        have hnone : ((0x0a :: bytes).take (n + 1)).findIdx? (· == 0x27) = none := by
          refine Option.eq_none_iff_forall_ne_some.mpr fun k hk => h k hk ?_
          rw [List.take_succ_cons, List.findIdx?_cons, if_neg (by decide)] at hk
          obtain ⟨j, -, rfl⟩ := Option.map_eq_some_iff.mp hk
          exact List.mem_cons_self ..
        rw [hnone, List.findIdx?_eq_none_iff]
        rw [List.findIdx?_eq_none_iff] at hnone
        intro x hx
        rcases mem_take_addReturns hx with rfl | hx
        · rfl
        · exact hnone x hx
      · rw [addReturns_cons hb, List.take_succ_cons, List.take_succ_cons, List.findIdx?_cons,
          List.findIdx?_cons]
        split
        · rfl
        next hq =>
          refine congrArg _ (ih fun k hk hmem => h (k + 1) ?_ (List.mem_cons_of_mem _ hmem))
          rw [List.take_succ_cons, List.findIdx?_cons, if_neg hq, hk]
          rfl

theorem charLiteralWidth?_escape_addReturns (y : UInt8) (tail : List UInt8)
    (h : ∀ k, (tail.take escapeReach).findIdx? (· == 0x27) = some k → 0x0a ∉ y :: tail.take k) :
    charLiteralWidth? 0x27 (addReturns (0x5c :: y :: tail)) =
      charLiteralWidth? 0x27 (0x5c :: y :: tail) := by
  rw [addReturns_cons (by decide), charLiteralWidth?_escape]
  by_cases hy : y = 0x0a
  · -- An escaped newline is part of a literal if there is a quote in reach.
    subst hy
    have hnone : (tail.take escapeReach).findIdx? (· == 0x27) = none :=
      Option.eq_none_iff_forall_ne_some.mpr fun k hk => h k hk (List.mem_cons_self ..)
    rw [addReturns_newline, charLiteralWidth?_escape, hnone, List.findIdx?_eq_none_iff.mpr]
    rw [List.findIdx?_eq_none_iff] at hnone
    intro z hz
    rw [escapeReach, List.take_succ_cons, List.mem_cons] at hz
    rcases hz with rfl | hz
    · rfl
    rcases mem_take_addReturns hz with rfl | hz
    · rfl
    · exact hnone z (List.take_subset_take_left _ (by decide) hz)
  · rw [addReturns_cons hy, charLiteralWidth?_escape, findIdx?_addReturns]
    exact fun k hk hmem => h k hk (List.mem_cons_of_mem _ hmem)

/-- Behind a stretch without a newline stands what stands there without the returns, unless it is a
newline itself. -/
theorem getElem?_addReturns {n : Nat} (h : 0x0a ∉ bytes.take n) :
    (addReturns bytes)[n]? = some 0x27 ↔ bytes[n]? = some 0x27 := by
  by_cases hlen : n ≤ bytes.length
  · have hfront : ∀ back : List UInt8, (bytes.take n ++ back)[n]? = back.head? := by
      intro back
      rw [List.getElem?_append_right (by rw [List.length_take]; omega), List.length_take,
        Nat.min_eq_left hlen, Nat.sub_self, List.head?_eq_getElem?]
    have hreturns := addReturns_append_of_not_mem h (bytes.drop n)
    rw [List.take_append_drop] at hreturns
    rw [hreturns, hfront, head?_addReturns_eq_some (by decide) (by decide), List.head?_drop]
  · rw [List.take_of_length_le (by omega)] at h
    rw [addReturns_eq_self h]

/-- Behind a quote, a character literal begins with the returns where it does without them, unless
it has a newline in it. -/
theorem charLiteralWidth?_addReturns (hrest : Unbroken rest)
    (hliteral : ∀ width, charLiteralWidth? b rest = some width → 0x0a ∉ rest.take (width - 1)) :
    charLiteralWidth? b (addReturns rest) = charLiteralWidth? b rest := by
  by_cases hb : b = 0x27
  · subst hb
    match rest with
    | [] => rfl
    | x :: tail =>
      by_cases hn : x = 0x0a
      · subst hn
        rfl
      by_cases hq : x = 0x27
      · subst hq
        rfl
      by_cases hs : x = 0x5c
      · subst hs
        match tail with
        | [] => rfl
        | y :: tail =>
          refine charLiteralWidth?_escape_addReturns y tail fun k hk hmem => ?_
          have htake := hliteral (k + 4) (by rw [charLiteralWidth?_escape, hk]; rfl)
          refine htake (List.mem_cons_of_mem _ ?_)
          exact List.take_subset_take_left (y :: tail) (Nat.le_succ (k + 1)) hmem
      · obtain ⟨n, hwidth⟩ : ∃ n, charWidth x = n + 1 := ⟨_, (Nat.succ_pred_eq_of_pos
          (charWidth_pos x)).symm⟩
        obtain ⟨hchar, -⟩ := hrest
        rw [hwidth, Nat.add_sub_cancel] at hchar
        rw [addReturns_cons hn, charLiteralWidth?_byte hq hs hn, charLiteralWidth?_byte hq hs hn,
          hwidth, List.getElem?_cons_succ, List.getElem?_cons_succ]
        simp only [getElem?_addReturns hchar]
  · simp [charLiteralWidth?, hb]

section Step

variable (hn : style.Lacks '\n') (hr : style.Lacks '\r') (hb : b ≠ 0x0a)

include hn hr hb

theorem stepBlock_addReturns (depth : Nat) :
    stepBlock style depth (b :: addReturns rest) = stepBlock style depth (b :: rest) := by
  rw [← addReturns_cons hb]
  simp only [stepBlock, occurs_addReturns hn.blockOpen hr.blockOpen,
    occurs_addReturns hn.blockClose hr.blockClose]

theorem stepCode_addReturns (hrest : Unbroken rest)
    (htake : 0x0a ∉ (b :: rest).take (stepCode style behind b rest).width) :
    stepCode style behind b (addReturns rest) = stepCode style behind b rest := by
  have hline := occurs_addReturns hn.line hr.line (b :: rest)
  have hopen := occurs_addReturns hn.blockOpen hr.blockOpen (b :: rest)
  rw [addReturns_cons hb] at hline hopen
  rw [stepCode] at htake
  rw [stepCode, stepCode, hline, hopen, rawHashes?_addReturns]
  split
  · rfl
  next h =>
    rw [if_neg h] at htake
    split
    · rfl
    next h =>
      rw [if_neg h] at htake
      split
      · rfl
      next h =>
        rw [h] at htake
        simp only at htake
        split
        · rfl
        next h =>
          rw [if_neg h] at htake
          by_cases hchar : style.charLiterals = true
          · rw [if_pos hchar, if_pos hchar, charLiteralWidth?_addReturns hrest]
            intro width hwidth hmem
            rw [if_pos hchar, hwidth] at htake
            cases width with
            | zero => exact absurd hmem (by simp)
            | succ width => exact htake (List.mem_cons_of_mem _ hmem)
          · rw [if_neg hchar, if_neg hchar]

end Step

theorem stepRaw_addReturns (hashes : Nat) (b : UInt8) (rest : List UInt8) :
    stepRaw hashes b (addReturns rest) = stepRaw hashes b rest := by
  have hmem : ∀ x ∈ List.replicate hashes (0x23 : UInt8), x = 0x23 := fun x hx =>
    List.eq_of_mem_replicate hx
  rw [stepRaw, stepRaw, isPrefixOf_addReturns]
  · exact fun h => absurd (hmem _ h) (by decide)
  · exact fun h => absurd (hmem _ h) (by decide)

theorem stepQuoted_addReturns (b : UInt8) (rest : List UInt8) :
    stepQuoted b (addReturns rest) = stepQuoted b rest ∨
      rest.head? = some 0x0a ∧ stepQuoted b rest = ⟨1, .quoted, true, false⟩ ∧
        stepQuoted b (addReturns rest) = ⟨2, .quoted, true, false⟩ := by
  by_cases hhead : rest.head? = some 0x0a
  · by_cases hb : b = 0x5c
    · subst hb
      exact .inr ⟨hhead, by simp [stepQuoted, hhead, isBlank], by
        simp [stepQuoted, head?_addReturns, hhead]⟩
    · exact .inl (by simp [stepQuoted, hb])
  · refine .inl ?_
    have hsame : (addReturns rest).head? = rest.head? := by
      rw [head?_addReturns]
      cases h : rest.head? with
      | none => rfl
      | some x => rw [Option.map_some, if_neg fun hx => hhead (by rw [h, hx])]
    rw [stepQuoted, stepQuoted, hsame]

/-- A turn that takes no newline is the same with the returns, except that a backslash may take one
along. -/
theorem step_addReturns (hn : style.Lacks '\n') (hr : style.Lacks '\r') (hb : b ≠ 0x0a)
    (hrest : Unbroken rest) (htake : 0x0a ∉ (b :: rest).take (step style m behind b rest).width) :
    step style m behind b (addReturns rest) = step style m behind b rest ∨
      rest.head? = some 0x0a ∧ step style m behind b rest = ⟨1, .quoted, true, false⟩ ∧
        step style m behind b (addReturns rest) = ⟨2, .quoted, true, false⟩ := by
  have hne : ¬ (b == 0x0a) = true := by simpa using hb
  simp only [step, if_neg hne] at htake ⊢
  cases m with
  | lineComment => exact .inl rfl
  | block depth => exact .inl (stepBlock_addReturns hn hr hb depth)
  | quoted => exact stepQuoted_addReturns b rest
  | rawQuoted hashes => exact .inl (stepRaw_addReturns hashes b rest)
  | code => exact .inl (stepCode_addReturns hn hr hb hrest htake)

theorem not_occurs_return {marker : Text} (hr : '\r' ∉ marker) (rest : List UInt8) :
    occurs marker (0x0d :: rest) = false := by
  cases marker with
  | nil => rfl
  | cons c marker =>
    rw [← Text.mem_utf8 (by decide), Text.utf8_cons] at hr
    rw [occurs, Text.utf8_cons]
    cases hc : String.utf8EncodeChar c with
    | nil => exact absurd hc String.utf8EncodeChar_ne_nil
    | cons x xs =>
      have hx : x ≠ 0x0d := by
        rintro rfl
        exact hr (by rw [hc]; exact List.mem_cons_self ..)
      rw [List.cons_append, List.isPrefixOf_cons_cons, beq_false_of_ne hx, Bool.false_and,
        Bool.and_false]

theorem step_return (hr : style.Lacks '\r') (m : Mode) (behind rest : List UInt8) :
    step style m behind 0x0d rest = ⟨1, m, false, false⟩ := by
  cases m with
  | lineComment => rfl
  | block depth =>
    simp [step, stepBlock, not_occurs_return hr.blockOpen, not_occurs_return hr.blockClose]
  | quoted => simp [step, stepQuoted, isBlank]
  | rawQuoted hashes => simp [step, stepRaw, isBlank]
  | code =>
    simp [step, stepCode, not_occurs_return hr.line, not_occurs_return hr.blockOpen, rawHashes?,
      charLiteralWidth?, isBlank]

/-! ### The pass -/

theorem markedLines_turn {s : State} (ho : s.owed = 0) :
    markedLines (turnsFrom style s (b :: rest)) =
      (if (step style s.mode s.behind b rest).marks then [s.line] else []) ++
        markedLines (turnsFrom style (s.take b (step style s.mode s.behind b rest)) rest) := by
  rw [turnsFrom_cons, if_pos ho, markedLines, List.filterMap_cons]
  cases (step style s.mode s.behind b rest).marks <;> rfl

/-- The state `s'` stands in the text with returns where `s` stands in the text without them, in
front of `bytes`. It may owe a byte for the return that comes next, if it has escaped it. -/
structure Follows (bytes : List UInt8) (s s' : State) : Prop where
  mode : s'.mode = s.mode
  line : s'.line = s.line
  owed : s'.owed = s.owed ∨ s.owed = 0 ∧ s'.owed = 1 ∧ bytes.head? = some 0x0a
  /-- What is owed is in the same line. -/
  inLine : 0x0a ∉ bytes.take s.owed
  behind : ∃ front p q, s.behind = front ++ p ∧ s'.behind = front ++ q ∧ BeginsLine p ∧ BeginsLine q

namespace Follows

variable {s s' : State}

theorem start (bytes : List UInt8) : Follows bytes .start .start :=
  ⟨rfl, rfl, .inl rfl, by simp [State.start], [], [], [], rfl, rfl, nofun, nofun⟩

theorem mayOpenRaw (h : Follows bytes s s') :
    Comment.mayOpenRaw s'.behind = Comment.mayOpenRaw s.behind := by
  obtain ⟨front, p, q, hs, hs', hp, hq⟩ := h.behind
  rw [hs, hs']
  exact mayOpenRaw_append hq hp front

theorem pass (h : Follows (b :: rest) s s') (ho : s.owed ≠ 0) :
    s'.owed = s.owed ∧ b ≠ 0x0a ∧ Follows rest (s.pass b) (s'.pass b) := by
  obtain ⟨n, hn⟩ : ∃ n, s.owed = n + 1 := ⟨_, (Nat.succ_pred_eq_of_ne_zero ho).symm⟩
  have howed : s'.owed = s.owed := h.owed.resolve_right fun h => ho h.1
  have hline := h.inLine
  rw [hn, List.take_succ_cons, List.mem_cons, not_or] at hline
  refine ⟨howed, Ne.symm hline.1, h.mode, h.line, .inl ?_, ?_, ?_⟩
  · simp [State.pass, howed]
  · simpa [State.pass, hn] using hline.2
  · obtain ⟨front, p, q, hs, hs', hp, hq⟩ := h.behind
    exact ⟨b :: front, p, q, by simp [State.pass, hs], by simp [State.pass, hs'], hp, hq⟩

theorem take {d d' : Step} (h : Follows (b :: rest) s s') (hnext : d'.next = d.next)
    (hbreaks : d'.breaks = d.breaks)
    (hwidth : d'.width = d.width ∨ rest.head? = some 0x0a ∧ d.width = 1 ∧ d'.width = 2)
    (hline : 0x0a ∉ (b :: rest).take d.width) : Follows rest (s.take b d) (s'.take b d') := by
  refine ⟨hnext, ?_, ?_, ?_, ?_⟩
  · simp [State.take, h.line, hbreaks]
  · rcases hwidth with hw | ⟨hhead, hw, hw'⟩
    · exact .inl (by simp [State.take, hw])
    · exact .inr ⟨by simp [State.take, hw], by simp [State.take, hw'], hhead⟩
  · intro hmem
    rw [State.take] at hmem
    cases hw : d.width with
    | zero => simp [hw] at hmem
    | succ n =>
      rw [hw] at hmem hline
      exact hline (List.mem_cons_of_mem _ hmem)
  · obtain ⟨front, p, q, hs, hs', hp, hq⟩ := h.behind
    exact ⟨b :: front, p, q, by simp [State.take, hs], by simp [State.take, hs'], hp, hq⟩

/-- The return is passed with the backslash in front of it, or else in a turn of its own. -/
theorem exists_behind_return (hr : style.Lacks '\r') (h : Follows (0x0a :: rest) s s') :
    s.owed = 0 ∧ ∃ r : State, r.mode = s.mode ∧ r.line = s.line ∧ r.owed = 0 ∧
      ∀ bytes, markedLines (turnsFrom style s' (0x0d :: bytes)) =
        markedLines (turnsFrom style r bytes) := by
  have howed : s.owed = 0 := by
    cases hs : s.owed with
    | zero => rfl
    | succ n => exact absurd (hs ▸ h.inLine) (by simp)
  refine ⟨howed, ?_⟩
  rcases h.owed with ho | ⟨-, ho, -⟩
  · rw [howed] at ho
    refine ⟨s'.take 0x0d ⟨1, s'.mode, false, false⟩, h.mode, h.line, rfl, fun bytes => ?_⟩
    rw [turnsFrom_cons, if_pos ho, step_return hr]
    rfl
  · refine ⟨s'.pass 0x0d, h.mode, h.line, by simp [State.pass, ho], fun bytes => ?_⟩
    rw [turnsFrom_cons, if_neg (by rw [ho]; decide)]

/-- At the end of a line the two states come to stand behind the newline. -/
theorem newline {r : State} {d : Step} (hline : r.line = s.line) (hwidth : d.width = 1) :
    Follows rest (s.take 0x0a d) (r.take 0x0a d) := by
  have hbegins : ∀ behind, BeginsLine ((0x0a : UInt8) :: behind) := fun behind b hb =>
    (Option.some.inj hb).symm
  refine ⟨rfl, by simp [State.take, hline], .inl rfl, by simp [State.take, hwidth], [], _, _, rfl,
    rfl, hbegins _, hbegins _⟩

theorem markedLines_eq (hn : style.Lacks '\n') (hr : style.Lacks '\r') (h : Follows bytes s s')
    (hchars : Unbroken bytes) (hliteral : LiteralsInLine style s bytes) :
    markedLines (turnsFrom style s' (addReturns bytes)) = markedLines (turnsFrom style s bytes) := by
  induction bytes generalizing s s' with
  | nil => rfl
  | cons b rest ih =>
    by_cases hb : b = 0x0a
    · subst hb
      obtain ⟨ho, r, hmode, hline, hr0, hturns⟩ := h.exists_behind_return hr
      have hstep : step style r.mode r.behind 0x0a (addReturns rest) =
          step style s.mode s.behind 0x0a rest := by rw [step_newline, step_newline, hmode]
      rw [addReturns_newline, hturns, markedLines_turn hr0, markedLines_turn ho, hstep, hline,
        ih (newline hline rfl) hchars.2 (hliteral.take ho)]
    rw [addReturns_cons hb]
    by_cases ho : s.owed = 0
    · have ho' : s'.owed = 0 := by
        rcases h.owed with ho' | ⟨-, -, hhead⟩
        · rw [ho', ho]
        · exact absurd (Option.some.inj hhead) hb
      have hline : 0x0a ∉ (b :: rest).take (step style s.mode s.behind b rest).width :=
        newline_not_mem_take hb hn (hliteral.head ho)
      have hbehind : step style s'.mode s'.behind b (addReturns rest) =
          step style s.mode s.behind b (addReturns rest) := by
        rw [h.mode]
        exact step_congr_behind h.mayOpenRaw b _
      rw [markedLines_turn ho', markedLines_turn ho, hbehind, h.line]
      rcases step_addReturns hn hr hb hchars.2 hline with hsame | ⟨hhead, hstep, hstep'⟩
      · rw [hsame, ih (h.take rfl rfl (.inl rfl) hline) hchars.2 (hliteral.take ho)]
      · rw [hstep] at hline
        have htake := hliteral.take ho
        rw [hstep] at htake
        have hnext : Follows rest (s.take b ⟨1, .quoted, true, false⟩)
            (s'.take b ⟨2, .quoted, true, false⟩) :=
          h.take rfl rfl (.inr ⟨hhead, rfl, rfl⟩) hline
        rw [hstep, hstep', ih hnext hchars.2 htake]
    · obtain ⟨howed, -, hnext⟩ := h.pass ho
      rw [turnsFrom_cons, turnsFrom_cons, if_neg ho, if_neg (howed ▸ ho)]
      exact ih hnext hchars.2 (hliteral.pass ho)

end Follows

end Comment

end ClosureLint
