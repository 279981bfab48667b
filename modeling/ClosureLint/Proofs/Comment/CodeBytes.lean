import ClosureLint.Proofs.Comment.Append

/-! Which bytes make a line a code line. The pass marks a line on the first byte of a turn alone,
and turns may take several bytes. But those that take several bytes of code begin with one that is
not blank, and where no turn takes a newline in passing, all bytes of a turn are on one line, whose
number is that of the newlines in front of it. So a line is flagged exactly if it holds a byte that
is not blank and is taken by a turn that starts outside comments and opens none. -/

namespace ClosureLint.Comment

/-- The line of the byte at an offset: the number of newlines in front of it. -/
def lineAt (text : Text) (offset : Nat) : Nat := (text.utf8.take offset).count 0x0a

def Turn.takes (t : Turn) (offset : Nat) : Bool :=
  t.state.offset ≤ offset && offset < t.state.offset + t.step.width

/-- The turn starts outside comments and opens none. -/
def Turn.readsCode (t : Turn) : Bool := t.state.mode.isCode && t.step.next.isCode

/-- The byte at an offset is not blank and is taken by a turn that starts outside comments and opens
none. -/
def isCodeByte (style : CommentStyle) (text : Text) (offset : Nat) : Bool :=
  text.utf8[offset]?.any (!isBlank ·) &&
    (turns style text).any fun t => t.takes offset && t.readsCode

variable {style : CommentStyle} {s : State} {m : Mode} {behind rest bytes : List UInt8} {b : UInt8}

/-! ### The marks of a turn -/

/-- A turn on the byte `b` marks its line if it is outside comments before and behind it and its
byte is not blank; and the byte is not blank if the turn takes several bytes there. -/
structure MarksCode (m : Mode) (b : UInt8) (d : Step) : Prop where
  marks : d.marks = (m.isCode && d.next.isCode && !isBlank b)
  wide : m.isCode = true → d.next.isCode = true → 1 < d.width → isBlank b = false

namespace MarksCode

variable {d : Step}

theorem comment (hd : d.marks = false) (h : (m.isCode && d.next.isCode) = false) :
    MarksCode m b d := by
  refine ⟨by rw [hd, h, Bool.false_and], fun hm hnext => ?_⟩
  rw [hm, hnext] at h
  cases h

theorem single (hd : d.width = 1) (h : d.marks = (m.isCode && d.next.isCode && !isBlank b)) :
    MarksCode m b d :=
  ⟨h, fun _ _ hwidth => by omega⟩

theorem ink (hb : isBlank b = false) (hd : d.marks = (m.isCode && d.next.isCode)) :
    MarksCode m b d :=
  ⟨by rw [hd, hb, Bool.not_false, Bool.and_true], fun _ _ _ => hb⟩

end MarksCode

theorem eq_quote_of_charLiteralWidth? {width : Nat} (h : charLiteralWidth? b rest = some width) :
    b = 0x27 := by
  rw [charLiteralWidth?.eq_def, Option.ite_none_right_eq_some] at h
  exact beq_iff_eq.mp h.1

theorem marksCode_stepBlock (depth : Nat) :
    MarksCode (.block depth) b (stepBlock style depth (b :: rest)) := by
  refine .comment ?_ rfl
  rw [stepBlock]
  repeat' split
  all_goals rfl

theorem marksCode_stepQuoted : MarksCode .quoted b (stepQuoted b rest) := by
  rw [stepQuoted]
  split
  next h =>
    obtain rfl : b = 0x5c := beq_iff_eq.mp (Bool.and_eq_true_iff.mp h).1
    exact .ink rfl rfl
  next =>
    split
    next h =>
      obtain rfl := beq_iff_eq.mp h
      exact .ink rfl rfl
    next => exact .single rfl rfl

theorem marksCode_stepRaw (hashes : Nat) :
    MarksCode (.rawQuoted hashes) b (stepRaw hashes b rest) := by
  rw [stepRaw]
  split
  next h =>
    obtain rfl : b = 0x22 := beq_iff_eq.mp (Bool.and_eq_true_iff.mp h).1
    exact .ink rfl rfl
  next => exact .single rfl rfl

theorem marksCode_stepCode : MarksCode .code b (stepCode style behind b rest) := by
  rw [stepCode]
  split
  · exact .comment rfl rfl
  split
  · exact .comment rfl rfl
  split
  next h =>
    obtain ⟨rfl, -⟩ := rawHashes?_eq_some (Option.ite_none_right_eq_some.mp h).2
    exact .ink rfl rfl
  next =>
    split
    next h =>
      obtain rfl := beq_iff_eq.mp h
      exact .ink rfl rfl
    next =>
      split
      next h =>
        obtain rfl := eq_quote_of_charLiteralWidth? (Option.ite_none_right_eq_some.mp h).2
        exact .ink rfl rfl
      next => exact .single rfl rfl

theorem marksCode_step (style : CommentStyle) (m : Mode) (behind : List UInt8) (b : UInt8)
    (rest : List UInt8) : MarksCode m b (step style m behind b rest) := by
  by_cases hb : b = 0x0a
  · subst hb
    exact .single rfl (Bool.and_false _).symm
  rw [step.eq_def, if_neg (by simpa using hb)]
  cases m with
  | lineComment => exact .comment rfl rfl
  | block depth => exact marksCode_stepBlock depth
  | quoted => exact marksCode_stepQuoted
  | rawQuoted hashes => exact marksCode_stepRaw hashes
  | code => exact marksCode_stepCode

theorem markerWidth_pos {marker : Text} (h : occurs marker bytes = true) :
    0 < markerWidth marker := by
  cases marker with
  | nil => cases h
  | cons c marker =>
    have := c.utf8Size_pos
    rw [markerWidth, Text.byteLength_cons]
    omega

theorem step_width_pos (style : CommentStyle) (m : Mode) (behind : List UInt8) (b : UInt8)
    (rest : List UInt8) : 0 < (step style m behind b rest).width := by
  by_cases hb : b = 0x0a
  · subst hb
    exact Nat.one_pos
  rw [step.eq_def, if_neg (by simpa using hb)]
  cases m with
  | lineComment => exact Nat.one_pos
  | block depth =>
    simp only [stepBlock]
    split
    next h => exact markerWidth_pos (Bool.and_eq_true_iff.mp h).2
    next =>
      split
      next h => exact markerWidth_pos h
      next => exact Nat.one_pos
  | quoted =>
    simp only [stepQuoted]
    repeat' split
    all_goals exact Nat.succ_pos _
  | rawQuoted hashes =>
    simp only [stepRaw]
    split
    · exact Nat.lt_add_right _ Nat.one_pos
    · exact Nat.one_pos
  | code =>
    simp only [stepCode]
    split
    next h => exact markerWidth_pos h
    next =>
      split
      next h => exact markerWidth_pos h
      next =>
        split
        · exact Nat.succ_pos _
        · split
          · exact Nat.one_pos
          · split
            next h =>
              have := three_le_of_charLiteralWidth? (Option.ite_none_right_eq_some.mp h).2
              exact Nat.lt_of_lt_of_le (by decide) this
            next => exact Nat.one_pos

/-! ### Where a turn stands -/

/-- The turn is on the byte `b`, with `front` before it and `rest` behind it. -/
structure Turn.StandsOn (style : CommentStyle) (front : List UInt8) (b : UInt8) (rest : List UInt8)
    (t : Turn) : Prop where
  offset : t.state.offset = front.length
  step : t.step = Comment.step style t.state.mode t.state.behind b rest

theorem Turn.StandsOn.marksCode {t : Turn} {front : List UInt8}
    (h : t.StandsOn style front b rest) : MarksCode t.state.mode b t.step := by
  rw [h.step]
  exact marksCode_step ..

theorem Turn.StandsOn.width_pos {t : Turn} {front : List UInt8}
    (h : t.StandsOn style front b rest) : 0 < t.step.width := by
  rw [h.step]
  exact step_width_pos ..

theorem exists_standsOn (done : List UInt8) {t : Turn} (hdone : s.offset = done.length)
    (h : t ∈ turnsFrom style s bytes) :
    ∃ front b rest, done ++ bytes = front ++ b :: rest ∧ t.StandsOn style front b rest := by
  induction bytes generalizing s done with
  | nil => cases h
  | cons b rest ih =>
    have hnext : done ++ b :: rest = (done ++ [b]) ++ rest := by simp
    have hlength : s.offset + 1 = (done ++ [b]).length := by simp [hdone]
    rw [turnsFrom_cons] at h
    split at h
    · rcases List.mem_cons.mp h with rfl | h
      · exact ⟨done, b, rest, rfl, hdone, rfl⟩
      · rw [hnext]
        exact ih _ hlength h
    · rw [hnext]
      exact ih _ hlength h

/-- What a turn leaves owed holds no newline, if a character literal does not. -/
theorem newline_not_owed_take (hstyle : style.Lacks '\n')
    (hliteral : s.mode = .code → (step style s.mode s.behind b rest).next = .code →
      1 < (step style s.mode s.behind b rest).width →
        0x0a ∉ (b :: rest).take (step style s.mode s.behind b rest).width) :
    0x0a ∉ rest.take (s.take b (step style s.mode s.behind b rest)).owed := by
  by_cases hb : b = 0x0a
  · subst hb
    simp [State.take, step_newline]
  · have htake := newline_not_mem_take hb hstyle hliteral
    simp only [State.take]
    cases hwidth : (step style s.mode s.behind b rest).width with
    | zero => simp
    | succ n =>
      rw [hwidth, List.take_succ_cons] at htake
      exact fun hmem => htake (List.mem_cons_of_mem _ hmem)

/-- Of the bytes that a turn has left owed, the next one is no newline, nor are those behind it. -/
theorem newline_not_owed_pass (ho : s.owed ≠ 0) (howed : 0x0a ∉ (b :: rest).take s.owed) :
    b ≠ 0x0a ∧ 0x0a ∉ rest.take (s.pass b).owed := by
  obtain ⟨n, hn⟩ : ∃ n, s.owed = n + 1 := ⟨s.owed - 1, by omega⟩
  rw [hn, List.take_succ_cons, List.mem_cons, not_or] at howed
  rw [State.pass, hn]
  exact ⟨Ne.symm howed.1, howed.2⟩

/-- A pass that takes no newline in passing counts them all: the line of a turn is the number of
newlines in front of it. -/
theorem line_of_mem_turnsFrom (hstyle : style.Lacks '\n') {t : Turn}
    (hliteral : LiteralsInLine style s bytes) (howed : 0x0a ∉ bytes.take s.owed)
    (h : t ∈ turnsFrom style s bytes) :
    t.state.line = s.line + (bytes.take (t.state.offset - s.offset)).count 0x0a := by
  induction bytes generalizing s with
  | nil => cases h
  | cons b rest ih =>
    rw [turnsFrom_cons] at h
    split at h
    next ho =>
      rcases List.mem_cons.mp h with rfl | h
      · rw [Nat.sub_self, List.take_zero]
        rfl
      have hle : s.offset + 1 ≤ t.state.offset := offset_le_of_mem_turnsFrom h
      have hline := ih (hliteral.take ho) ?_ h
      · rw [hline]
        simp only [State.take, step_breaks]
        rw [show t.state.offset - s.offset = t.state.offset - (s.offset + 1) + 1 by omega,
          List.take_succ_cons, List.count_cons]
        split <;> omega
      · exact newline_not_owed_take hstyle (hliteral.head ho)
    next ho =>
      have hle : s.offset + 1 ≤ t.state.offset := offset_le_of_mem_turnsFrom h
      obtain ⟨hb, hpass⟩ := newline_not_owed_pass ho howed
      rw [ih (hliteral.pass ho) hpass h,
        show t.state.offset - s.offset = t.state.offset - (s.offset + 1) + 1 by omega,
        List.take_succ_cons, List.count_cons_of_ne hb]
      rfl

/-- Where the pass comes from bytes in which it has taken no newline in passing, it has counted all
of them, and owes none. -/
theorem line_stateAfter (hstyle : style.Lacks '\n') {front : List UInt8}
    (hliteral : LiteralsInLineOver style s front rest)
    (howed : 0x0a ∉ (front ++ rest).take s.owed) :
    (stateAfter style s front rest).line = s.line + front.count 0x0a ∧
      0x0a ∉ rest.take (stateAfter style s front rest).owed := by
  induction front generalizing s with
  | nil => exact ⟨rfl, howed⟩
  | cons b front ih =>
    rw [stateAfter]
    split
    next ho =>
      obtain ⟨hline, hnone⟩ := ih (hliteral.take ho) (newline_not_owed_take hstyle (hliteral.head ho))
      refine ⟨hline.trans ?_, hnone⟩
      simp only [State.take, step_breaks, List.count_cons]
      split <;> omega
    next ho =>
      obtain ⟨hb, hpass⟩ := newline_not_owed_pass ho howed
      obtain ⟨hline, hnone⟩ := ih (hliteral.pass ho) hpass
      refine ⟨hline.trans ?_, hnone⟩
      rw [List.count_cons_of_ne hb]
      rfl

theorem owed_stateAfter_newline (hstyle : style.Lacks '\n') {front : List UInt8}
    (hliteral : LiteralsInLineOver style s (front ++ [0x0a]) rest)
    (howed : 0x0a ∉ (front ++ 0x0a :: rest).take s.owed) :
    (stateAfter style s (front ++ [0x0a]) rest).owed = 0 := by
  obtain ⟨-, hnone⟩ := line_stateAfter hstyle hliteral.left howed
  have ho : (stateAfter style s front ([0x0a] ++ rest)).owed = 0 :=
    Decidable.byContradiction fun ho => (newline_not_owed_pass ho hnone).1 rfl
  rw [stateAfter_append, stateAfter, if_pos ho]
  rfl

/-- Without character literals, a turn that stays outside comments and strings takes one byte. -/
theorem step_width_eq_one (h : style.charLiterals = false)
    (hnext : (step style .code behind b rest).next = .code) :
    (step style .code behind b rest).width = 1 := by
  by_cases hb : b = 0x0a
  · subst hb
    rfl
  have hne : ¬ (b == 0x0a) = true := by simpa using hb
  rw [step, if_neg hne, stepCode, h] at hnext ⊢
  split at hnext
  · cases hnext
  next hline =>
    rw [if_neg hline]
    split at hnext
    · cases hnext
    next hopen =>
      rw [if_neg hopen]
      split at hnext
      · cases hnext
      next => split <;> rfl

theorem literalsInLine_of_charLiterals (h : style.charLiterals = false) (bytes : List UInt8) :
    LiteralsInLine style .start bytes := by
  intro t ht hliteral
  obtain ⟨front, b, rest, -, hstands⟩ := exists_standsOn [] rfl ht
  obtain ⟨hmode, hnext, hwidth⟩ := of_decide_eq_true hliteral
  rw [hstands.step, hmode] at hnext hwidth
  rw [step_width_eq_one h hnext] at hwidth
  omega

theorem Turn.StandsOn.newline_not_mem (hstyle : style.Lacks '\n') {t : Turn} {front : List UInt8}
    (hstands : t.StandsOn style front b rest) (hb : b ≠ 0x0a)
    (hliteral : t.isCharLiteral = true → 0x0a ∉ (b :: rest).take t.step.width) :
    0x0a ∉ (b :: rest).take t.step.width := by
  rw [hstands.step] at hliteral ⊢
  refine newline_not_mem_take hb hstyle fun hm hnext hwidth => hliteral ?_
  rw [isCharLiteral, hstands.step]
  exact decide_eq_true ⟨hm, hnext, hwidth⟩

/-! ### Lines and bytes -/

variable {text : Text}

theorem lt_of_mem_markedLines {n : Nat} (h : n ∈ markedLines (turns style text)) :
    n < text.count '\n' + 1 := by
  obtain ⟨t, ht, hn⟩ := List.mem_filterMap.mp h
  rw [turns, turnsFrom_eq_turnsOver] at ht
  have hline := (line_of_mem_turnsOver ht).2
  rw [Text.count_newline] at hline
  obtain ⟨-, hn⟩ := Option.ite_none_right_eq_some.mp hn
  cases hn
  exact Nat.lt_succ_of_le (Nat.le_trans hline (Nat.le_of_eq (Nat.zero_add _)))

theorem lineAt_of_eq {front back : List UInt8} (h : text.utf8 = front ++ back) (n : Nat) :
    lineAt text (front.length + n) = front.count 0x0a + (back.take n).count 0x0a := by
  rw [lineAt, h, List.take_length_add_append, List.count_append]

/-- The line of a turn is that of its byte, which is that of all bytes the turn takes. -/
theorem line_of_mem_turns (hstyle : style.Lacks '\n')
    (hliteral : LiteralsInLine style .start text.utf8) {t : Turn} (ht : t ∈ turns style text) :
    ∃ front b rest, text.utf8 = front ++ b :: rest ∧ t.StandsOn style front b rest ∧
      t.state.line = front.count 0x0a ∧
        (b ≠ 0x0a → ∀ n < t.step.width, lineAt text (front.length + n) = front.count 0x0a) := by
  obtain ⟨front, b, rest, htext, hstands⟩ := exists_standsOn [] rfl ht
  rw [List.nil_append] at htext
  have hline := line_of_mem_turnsFrom hstyle hliteral (by simp [State.start]) ht
  have hplace : t.state.offset - State.start.offset = front.length := hstands.offset
  have htaken : t.taken 0 text.utf8 = (b :: rest).take t.step.width := by
    rw [Turn.taken, Nat.sub_zero, hstands.offset, htext, List.drop_left]
  refine ⟨front, b, rest, htext, hstands, ?_, fun hb n hn => ?_⟩
  · rw [hline, hplace, htext, List.take_left]
    exact Nat.zero_add _
  · have hnone := hstands.newline_not_mem hstyle hb fun h => htaken ▸ hliteral t ht h
    have hzero : ((b :: rest).take n).count 0x0a = 0 := List.count_eq_zero.mpr fun hmem =>
      hnone (List.take_subset_take_left _ (Nat.le_of_lt hn) hmem)
    rw [lineAt_of_eq htext, hzero, Nat.add_zero]

theorem isCodeByte_eq_true_iff {i : Nat} : isCodeByte style text i = true ↔
    (∃ b, text.utf8[i]? = some b ∧ isBlank b = false) ∧
      ∃ t ∈ turns style text, t.state.offset ≤ i ∧ i < t.state.offset + t.step.width ∧
        t.readsCode = true := by
  simp only [isCodeByte, Turn.takes, Bool.and_eq_true, Option.any_eq_true, List.any_eq_true,
    Bool.not_eq_true', decide_eq_true_eq, and_assoc]

theorem exists_isCodeByte (hstyle : style.Lacks '\n')
    (hliteral : LiteralsInLine style .start text.utf8) {k : Nat}
    (h : k ∈ markedLines (turns style text)) :
    ∃ i, isCodeByte style text i = true ∧ lineAt text i = k := by
  obtain ⟨t, ht, hk⟩ := List.mem_filterMap.mp h
  obtain ⟨hmarks, hk⟩ := Option.ite_none_right_eq_some.mp hk
  cases hk
  obtain ⟨front, b, rest, htext, hstands, hline, -⟩ := line_of_mem_turns hstyle hliteral ht
  have hpos := hstands.width_pos
  rw [hstands.marksCode.marks, Bool.and_eq_true, Bool.not_eq_true'] at hmarks
  refine ⟨front.length, isCodeByte_eq_true_iff.mpr ⟨⟨b, by simp [htext], hmarks.2⟩, t, ht, ?_⟩, ?_⟩
  · rw [hstands.offset]
    exact ⟨Nat.le_refl _, by omega, hmarks.1⟩
  · rw [hline, lineAt, htext, List.take_left]

/-- The turn that takes a code byte marks its line. -/
theorem lineAt_mem_markedLines (hstyle : style.Lacks '\n')
    (hliteral : LiteralsInLine style .start text.utf8) {i : Nat}
    (h : isCodeByte style text i = true) : lineAt text i ∈ markedLines (turns style text) := by
  obtain ⟨⟨c, hc, hblank⟩, t, ht, hle, hlt, hreads⟩ := isCodeByte_eq_true_iff.mp h
  obtain ⟨front, b, rest, htext, hstands, hline, htakes⟩ := line_of_mem_turns hstyle hliteral ht
  rw [hstands.offset] at hle hlt
  obtain ⟨n, rfl⟩ := Nat.exists_eq_add_of_le hle
  -- The byte that the turn is on is not blank: it is the code byte, or the first one of several.
  have hb : isBlank b = false := by
    cases n with
    | zero =>
      obtain rfl : b = c := by simpa [htext] using hc
      exact hblank
    | succ n =>
      obtain ⟨hmode, hnext⟩ := Bool.and_eq_true_iff.mp hreads
      exact hstands.marksCode.wide hmode hnext (by omega)
  have hnewline : b ≠ 0x0a := by
    rintro rfl
    cases hb
  have hmarks : t.step.marks = true := by
    rw [hstands.marksCode.marks, hb, Bool.not_false, Bool.and_true]
    exact hreads
  refine List.mem_filterMap.mpr ⟨t, ht, ?_⟩
  rw [if_pos hmarks, hline, htakes hnewline n (by omega)]

/-- The marked lines are those of the code bytes. -/
theorem mem_markedLines_iff (hstyle : style.Lacks '\n')
    (hliteral : LiteralsInLine style .start text.utf8) {k : Nat} :
    k ∈ markedLines (turns style text) ↔
      ∃ i, isCodeByte style text i = true ∧ lineAt text i = k := by
  constructor
  · exact exists_isCodeByte hstyle hliteral
  · rintro ⟨i, hi, rfl⟩
    exact lineAt_mem_markedLines hstyle hliteral hi

/-- A shorter table of flags is cut off, and a longer one is filled up. -/
theorem flags_resize {full : Nat} {marked : List Nat} (h : ∀ k ∈ marked, k < full) (n : Nat) :
    (flags n marked).toList =
      (flags full marked).toList.take n ++ List.replicate (n - full) false := by
  have hlength : ((flags full marked).toList.take n).length = min n full := by
    rw [List.length_take, Array.length_toList, size_flags]
  apply List.ext_getElem?
  intro k
  rw [Array.getElem?_toList]
  by_cases hk : k < n
  · rw [getElem?_flags hk]
    by_cases hfull : k < full
    · rw [List.getElem?_append_left (by omega), List.getElem?_take_of_lt hk, Array.getElem?_toList,
        getElem?_flags hfull]
    · have hno : k ∉ marked := fun hmem => hfull (h k hmem)
      rw [List.getElem?_append_right (by omega), List.getElem?_replicate_of_lt (by omega),
        decide_eq_false hno]
  · rw [Array.getElem?_eq_none (by rw [size_flags]; omega), List.getElem?_eq_none]
    rw [List.length_append, hlength, List.length_replicate]
    omega

/-- The line counter and the marks of the pass are exact where no comment marker and no character
literal holds a newline: at every turn the counter is the number of newlines so far, so no mark is
beyond the last line, and a line is flagged if and only if it holds a byte that is not blank and is
taken by a turn that starts outside comments and opens none. For any text and style, the flags of
another number of lines are the same ones, cut off or filled up with lines without code. -/
theorem codeLines_exact (style : CommentStyle) (text : Text) :
    (style.Lacks '\n' → (style.charLiterals = true → LiteralsInLine style .start text.utf8) →
      (∀ t ∈ turns style text, t.state.line = lineAt text t.state.offset) ∧
      (∀ k ∈ markedLines (turns style text), k < text.count '\n' + 1) ∧
      ∀ k, (codeLines style text (text.count '\n' + 1))[k]? = some true ↔
        ∃ i, isCodeByte style text i = true ∧ lineAt text i = k) ∧
    ∀ n, (codeLines style text n).toList =
      (codeLines style text (text.count '\n' + 1)).toList.take n ++
        List.replicate (n - (text.count '\n' + 1)) false := by
  refine ⟨fun hstyle hchar => ?_, flags_resize fun k => lt_of_mem_markedLines⟩
  have hliteral : LiteralsInLine style .start text.utf8 := by
    cases h : style.charLiterals with
    | true => exact hchar h
    | false => exact literalsInLine_of_charLiterals h _
  refine ⟨fun t ht => ?_, fun k => lt_of_mem_markedLines, fun k => ?_⟩
  · obtain ⟨front, b, rest, htext, hstands, hline, -⟩ := line_of_mem_turns hstyle hliteral ht
    rw [hline, hstands.offset, lineAt, htext, List.take_left]
  · rw [← mem_markedLines_iff hstyle hliteral]
    by_cases hk : k < text.count '\n' + 1
    · rw [codeLines, getElem?_flags hk, Option.some.injEq, decide_eq_true_eq]
    · rw [Array.getElem?_eq_none (by rw [codeLines, size_flags]; omega)]
      constructor
      · intro h
        cases h
      · exact fun h => absurd (lt_of_mem_markedLines h) hk

/-- A string with an escaped quote, the quote as a character, and comments behind and before code
in their lines. -/
def quotedQuotes : Text := "\"\\\"//\" '\"' // c\n/* \"\n*/ r#\"\n\"#".toList

theorem codeLines_exact_quotes : CommentStyle.rust.Lacks '\n' ∧
    LiteralsInLine .rust .start quotedQuotes.utf8 ∧
    codeLines .rust quotedQuotes 4 = #[true, false, true, true] ∧
    ((∀ t ∈ turns .rust quotedQuotes, t.state.line = lineAt quotedQuotes t.state.offset) ∧
      (∀ k ∈ markedLines (turns .rust quotedQuotes), k < 4) ∧
      ∀ k, (codeLines .rust quotedQuotes 4)[k]? = some true ↔
        ∃ i, isCodeByte .rust quotedQuotes i = true ∧ lineAt quotedQuotes i = k) ∧
    ∀ n, (codeLines .rust quotedQuotes n).toList =
      (codeLines .rust quotedQuotes 4).toList.take n ++ List.replicate (n - 4) false := by
  have hstyle : CommentStyle.rust.Lacks '\n' := ⟨by decide, by decide, by decide⟩
  have hliteral : LiteralsInLine .rust .start quotedQuotes.utf8 := by decide
  obtain ⟨hexact, hresize⟩ := codeLines_exact .rust quotedQuotes
  exact ⟨hstyle, hliteral, by decide, hexact hstyle fun _ => hliteral, hresize⟩

end ClosureLint.Comment
