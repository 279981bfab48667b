import ClosureLint.Proofs.Comment.Padding
import ClosureLint.Proofs.Rust.Trivia
import ClosureLint.Proofs.Source.BlankLines

/-! The pass over the bytes of a text and the skipping of what may stand between tokens read
comments in the same way. The pass first leaves a block comment where skipping finds its end, and
stays in one for which skipping finds none. So the pass comes to what skipping leaves in a turn
outside comments and strings, and marks no line before it, unless there is white space that the pass
does not know as blank. -/

namespace ClosureLint

namespace Comment

/-- A turn that leads out of the outermost block comment. -/
def Turn.leavesBlock (t : Turn) : Bool :=
  match t.state.mode, t.step.next with
  | .block _, .code => true
  | _, _ => false

def Turn.stop (t : Turn) : Nat := t.state.offset + t.step.width

/-- The offset at which the pass first returns from a block comment. -/
def firstReturn? (text : Text) : Option Nat :=
  ((turns .rust text).find? Turn.leavesBlock).map Turn.stop

variable {style : CommentStyle} {s : State} {m : Mode} {depth : Nat}

theorem turnsFrom_marker {x y : UInt8} {rest : List UInt8} {marks : Bool} (h : s.owed = 0)
    (hx : x ≠ 0x0a) (hy : y ≠ 0x0a)
    (hstep : step style s.mode s.behind x (y :: rest) = ⟨2, m, marks, false⟩) :
    turnsFrom style s (x :: y :: rest) =
      ⟨s, ⟨2, m, marks, false⟩⟩ :: turnsFrom style (s.beyond [x, y] m) rest := by
  have hcross : Crosses style s [x, y] rest m (if marks then [s.line] else []) :=
    Crosses.turn h hstep (by simp [hx.symm, hy.symm])
  have hturn : turnsOver style s [x, y] rest = [⟨s, ⟨2, m, marks, false⟩⟩] := by
    rw [turnsOver, if_pos h, List.singleton_append, hstep]
    rfl
  have happend := turnsFrom_append style s [x, y] rest
  rwa [hcross.reaches, hturn] at happend

theorem turnsFrom_opening (h : s.owed = 0) (hm : s.mode = .block depth) (t : Text) :
    turnsFrom .rust s (Text.utf8 ('/' :: '*' :: t)) =
      ⟨s, ⟨2, .block (depth + 1), false, false⟩⟩ ::
        turnsFrom .rust (s.beyond (Text.utf8 ['/', '*']) (.block (depth + 1))) t.utf8 := by
  refine turnsFrom_marker h (by decide) (by decide) ?_
  rw [hm]
  exact stepBlock_opening depth t.utf8

theorem turnsFrom_closing (h : s.owed = 0) (hm : s.mode = .block depth) (t : Text) :
    turnsFrom .rust s (Text.utf8 ('*' :: '/' :: t)) =
      ⟨s, ⟨2, closeBlock depth, false, false⟩⟩ ::
        turnsFrom .rust (s.beyond (Text.utf8 ['*', '/']) (closeBlock depth)) t.utf8 := by
  refine turnsFrom_marker h (by decide) (by decide) ?_
  rw [hm]
  exact stepBlock_closing depth t.utf8

/-- Turns over single bytes stay in their mode if none of the bytes means anything in it. -/
theorem next_of_mem_turnsOver {front rest : List UInt8} {marks : Bool} {t : Turn} (h : s.owed = 0)
    (hstep : ∀ x ∈ front, ∀ behind rest, step style s.mode behind x rest =
      ⟨1, s.mode, marks, false⟩)
    (ht : t ∈ turnsOver style s front rest) : t.step.next = s.mode := by
  induction front generalizing s with
  | nil => cases ht
  | cons x front ih =>
    obtain ⟨hx, hfront⟩ := List.forall_mem_cons.mp hstep
    rw [turnsOver, if_pos h, hx] at ht
    rcases List.mem_cons.mp ht with rfl | ht
    · rfl
    · exact @ih (s.take x ⟨1, s.mode, marks, false⟩) rfl hfront ht

/-- Over a character with which no marker begins, all turns stay in the block comment. -/
theorem stays_over_char {c : Char} {t : Text} (h : s.owed = 0) (hm : s.mode = .block depth)
    (hopen : ['/', '*'].isPrefixOf (c :: t) = false)
    (hclose : ['*', '/'].isPrefixOf (c :: t) = false) :
    stateAfter .rust s (Text.utf8 [c]) t.utf8 = s.beyond (Text.utf8 [c]) (.block depth) ∧
      ∀ turn ∈ turnsOver .rust s (Text.utf8 [c]) t.utf8, turn.step.next = .block depth := by
  have hstep : c.toNat < 0x80 → c ≠ '\n' → step .rust s.mode s.behind (UInt8.ofNat c.toNat) t.utf8 =
      ⟨1, s.mode, false, false⟩ := by
    intro hc hn
    rw [hm]
    exact step_block_other hc hn hopen hclose
  refine ⟨hm ▸ (Skips.char h hm hstep).reaches, fun turn hturn => ?_⟩
  by_cases hc : c.toNat < 0x80
  · have hsingle : Text.utf8 [c] = [UInt8.ofNat c.toNat] := Text.utf8_cons_ascii hc []
    rw [hsingle, turnsOver, if_pos h, turnsOver, List.mem_singleton] at hturn
    subst hturn
    by_cases hn : c = '\n'
    · subst hn
      simp [step, hm]
    · rw [List.nil_append, hstep hc hn]
      exact hm
  · have hutf : Text.utf8 [c] = String.utf8EncodeChar c := List.append_nil _
    rw [hutf] at hturn
    exact (next_of_mem_turnsOver h (fun x hx _ _ => step_high (Text.encode_high (by omega) hx))
      hturn).trans hm

theorem leavesBlock_of_code {t : Turn} (hm : t.state.mode = .block depth)
    (h : t.step.next = .code) : t.leavesBlock = true := by
  rw [Turn.leavesBlock, hm, h]

theorem leavesBlock_of_next {t : Turn} (h : t.step.next = .block depth) :
    t.leavesBlock = false := by
  rw [Turn.leavesBlock, h]
  split
  next hnext => cases hnext
  next => rfl

theorem offset_beyond (s : State) (a t : Text) (m : Mode) :
    (s.beyond a.utf8 m).offset + t.byteLength = s.offset + Text.byteLength (a ++ t) := by
  rw [State.beyond, Text.length_utf8, Text.byteLength_append, Nat.add_assoc]

/-- Inside a block comment, the pass first leaves where the rest of the text begins that skipping
finds behind its end. -/
theorem find?_leavesBlock {t : Text} {stop : Nat} (h : s.owed = 0) (hm : s.mode = .block depth)
    (hstop : s.offset + t.byteLength = stop) :
    ((turnsFrom .rust s t.utf8).find? Turn.leavesBlock).map Turn.stop =
      (Rust.afterBlock? depth t).map fun next => stop - next.byteLength := by
  -- Each turn leaves the offset of the end where it is, so it can be fixed in advance.
  fun_induction Rust.afterBlock? depth t generalizing s with
  | case1 depth t ih =>
    rw [turnsFrom_opening h hm, List.find?_cons_of_neg (by simp [leavesBlock_of_next])]
    exact ih rfl rfl ((offset_beyond s ['/', '*'] t _).trans hstop)
  | case2 depth t hle =>
    have hleaves : Turn.leavesBlock ⟨s, ⟨2, closeBlock depth, false, false⟩⟩ = true :=
      leavesBlock_of_code hm (if_pos hle)
    have hnext := offset_beyond s ['*', '/'] t .code
    rw [turnsFrom_closing h hm, List.find?_cons_of_pos hleaves, Option.map_some, Option.map_some,
      Turn.stop, ← hstop]
    congr 1
    exact Nat.eq_sub_of_add_eq hnext
  | case3 depth t hlt ih =>
    have hclose : closeBlock depth = .block (depth - 1) := if_neg hlt
    rw [turnsFrom_closing h hm, hclose, List.find?_cons_of_neg (by simp [leavesBlock_of_next])]
    exact ih rfl rfl ((offset_beyond s ['*', '/'] t _).trans hstop)
  | case4 depth c t hopen hclose ih =>
    obtain ⟨hreaches, hstays⟩ := stays_over_char h hm
      (@Rust.isPrefixOf_pair_eq_false '/' '*' c t [] (by simpa using hopen))
      (@Rust.isPrefixOf_pair_eq_false '*' '/' c t [] (by simpa using hclose))
    have hnone :
        (turnsOver .rust s (Text.utf8 [c]) (Text.utf8 t)).find? Turn.leavesBlock = none := by
      rw [List.find?_eq_none]
      exact fun turn hturn => Bool.eq_false_iff.mp (leavesBlock_of_next (hstays turn hturn))
    have hutf : Text.utf8 (c :: t) = Text.utf8 [c] ++ Text.utf8 t := Text.utf8_append [c] t
    rw [hutf, turnsFrom_append, List.find?_append, hnone, Option.none_or, hreaches]
    exact ih rfl rfl ((offset_beyond s [c] t _).trans hstop)
  | case5 => rfl

theorem turns_opening (rest : Text) : turns .rust ('/' :: '*' :: rest) =
    ⟨.start, ⟨2, .block 1, false, false⟩⟩ ::
      turnsFrom .rust (State.start.beyond (Text.utf8 ['/', '*']) (.block 1)) rest.utf8 :=
  turnsFrom_marker rfl (by decide) (by decide) (stepCode_block [] rest.utf8)

theorem firstReturn?_opening (rest : Text) : firstReturn? ('/' :: '*' :: rest) =
    (Rust.afterBlock? 1 rest).map fun next => rest.byteLength + 2 - next.byteLength := by
  rw [firstReturn?, turns_opening, List.find?_cons_of_neg (by simp [Turn.leavesBlock, State.start])]
  refine find?_leavesBlock rfl rfl ?_
  have hmarker : Text.byteLength ['/', '*'] = 2 := rfl
  have hstart : State.start.offset = 0 := rfl
  rw [offset_beyond, Text.byteLength_append]
  omega

/-- From a block comment, a turn leads into a block comment or out of it. -/
theorem next_step_block (depth : Nat) (behind : List UInt8) (b : UInt8) (rest : List UInt8) :
    (step style (.block depth) behind b rest).next = .code ∨
      ∃ next, (step style (.block depth) behind b rest).next = .block next := by
  rw [step]
  split
  · exact .inr ⟨depth, rfl⟩
  · simp only [stepBlock, closeBlock]
    repeat' split
    all_goals simp

/-- A pass that never leaves the block comment stays in block comments. -/
theorem next_of_never_leaves {bytes : List UInt8} (hm : s.mode = .block depth)
    (hnever : ∀ t ∈ turnsFrom style s bytes, t.leavesBlock = false) :
    ∀ t ∈ turnsFrom style s bytes, ∃ next, t.step.next = .block next := by
  induction bytes generalizing s depth with
  | nil => exact nofun
  | cons b rest ih =>
    rw [turnsFrom_cons] at hnever ⊢
    split
    next h =>
      rw [if_pos h] at hnever
      obtain ⟨hturn, hrest⟩ := List.forall_mem_cons.mp hnever
      have hnext := @next_step_block style depth s.behind b rest
      rw [← hm] at hnext
      obtain hcode | ⟨next, hblock⟩ := hnext
      · rw [leavesBlock_of_code hm hcode] at hturn
        cases hturn
      · exact List.forall_mem_cons.mpr ⟨⟨next, hblock⟩, ih hblock hrest⟩
    next h =>
      rw [if_neg h] at hnever
      exact ih (s := s.pass b) hm hnever

/-- The pass over a block comment has no first return exactly if it is in a block comment behind
every turn. -/
theorem firstReturn?_eq_none_iff (rest : Text) : firstReturn? ('/' :: '*' :: rest) = none ↔
    ∀ turn ∈ turns .rust ('/' :: '*' :: rest), ∃ depth, turn.step.next = .block depth := by
  rw [firstReturn?, Option.map_eq_none_iff, List.find?_eq_none]
  constructor
  · intro hnever
    rw [turns_opening] at hnever ⊢
    obtain ⟨-, hrest⟩ := List.forall_mem_cons.mp hnever
    refine List.forall_mem_cons.mpr ⟨⟨1, rfl⟩, next_of_never_leaves rfl fun turn hturn => ?_⟩
    exact Bool.eq_false_iff.mpr (hrest turn hturn)
  · intro hstays turn hturn
    obtain ⟨depth, hnext⟩ := hstays turn hturn
    exact Bool.eq_false_iff.mp (leavesBlock_of_next hnext)

end Comment

namespace Rust

open Comment

/-- The number of bytes of a block comment behind its opening marker. -/
def blockLength? (rest : Text) : Option Nat :=
  (afterBlock? 1 rest).map fun next => rest.byteLength - next.byteLength

theorem firstReturn?_eq (rest : Text) :
    firstReturn? ('/' :: '*' :: rest) = (blockLength? rest).map (· + 2) := by
  rw [firstReturn?_opening, blockLength?, Option.map_map]
  cases hnext : afterBlock? 1 rest with
  | none => rfl
  | some next =>
    obtain ⟨content, rfl, -⟩ := afterBlock?_eq_some_iff.mp hnext
    rw [Option.map_some, Option.map_some, Function.comp_apply, Text.byteLength_append]
    congr 1
    omega

variable {items : List Trivium} {t p : Text} {s : State}

theorem Trivium.padding_append {item : Trivium} (h : item.Plain)
    (hblank : ∀ c, item = .blank c → isBlankChar c = true) (ht : Padding t) :
    Padding (item.text ++ t) := by
  cases item with
  | blank c => exact .blank (hblank c rfl) ht
  | lineComment content =>
    rw [Trivium.text, List.cons_append, List.cons_append, List.append_assoc]
    exact .lineComment h.1 ht
  | blockComment content => exact .blockComment h.1 ht

theorem padding_spell (h : ∀ item ∈ items, item.Plain)
    (hblank : ∀ c, .blank c ∈ items → isBlankChar c = true) : Padding (Trivium.spell items) := by
  induction items with
  | nil => exact .nil
  | cons item items ih =>
    obtain ⟨hitem, hitems⟩ := List.forall_mem_cons.mp h
    rw [Trivium.spell_cons]
    refine Trivium.padding_append hitem (fun c hc => hblank c (hc ▸ List.mem_cons_self ..)) ?_
    exact ih hitems fun c hc => hblank c (List.mem_cons_of_mem _ hc)

/-- The pass crosses a piece from code to code, whatever it marks there. -/
theorem Trivium.crosses {item : Trivium} (h : item.Plain) (rest : Text) (howed : s.owed = 0)
    (hm : s.mode = .code) : ∃ ink, Crosses .rust s item.text.utf8 rest.utf8 .code ink := by
  by_cases hblank : ∀ c, item = .blank c → isBlankChar c = true
  · have hpadding := Trivium.padding_append h hblank .nil
    rw [List.append_nil] at hpadding
    exact ⟨[], hpadding.skips howed hm⟩
  · obtain ⟨c, rfl, hc⟩ : ∃ c, item = .blank c ∧ ¬ isBlankChar c = true := by simpa using hblank
    have hwhite : IsWhite [c] := by
      refine fun d hd => ?_
      obtain rfl := List.mem_singleton.mp hd
      exact ⟨h, fun hn => hc (hn ▸ rfl)⟩
    exact ⟨_, hm ▸ Crosses.white howed hwhite⟩

theorem crosses_spell (h : ∀ item ∈ items, Trivium.Plain item) (rest : Text) (howed : s.owed = 0)
    (hm : s.mode = .code) :
    ∃ ink, Crosses .rust s (Trivium.spell items).utf8 rest.utf8 .code ink := by
  induction items generalizing s with
  | nil => exact ⟨[], hm ▸ Crosses.nil howed⟩
  | cons item items ih =>
    obtain ⟨hitem, hitems⟩ := List.forall_mem_cons.mp h
    obtain ⟨ink, hcross⟩ := Trivium.crosses hitem (Trivium.spell items ++ rest) howed hm
    obtain ⟨later, hrest⟩ := @ih (s.beyond item.text.utf8 .code) hitems rfl rfl
    rw [Text.utf8_append] at hcross
    rw [Trivium.spell_cons, Text.utf8_append]
    exact ⟨ink ++ later, hcross.append hrest⟩

/-- If skipping leaves something, then what it skips are pieces. -/
theorem exists_spell_of_skipTrivia (ht : t = p ++ skipTrivia t) (hne : skipTrivia t ≠ []) :
    ∃ items, (∀ item ∈ items, Trivium.Plain item) ∧ p = Trivium.spell items := by
  obtain ⟨items, u, hitems, hspell, hu | hu⟩ := exists_spell t
  · have hskip : skipTrivia t = u := hspell ▸ skipTrivia_spell hitems hu
    rw [hskip] at ht
    exact ⟨items, hitems, List.append_cancel_right (ht.symm.trans hspell)⟩
  · exact absurd (hspell ▸ skipTrivia_unended hitems hu) hne

theorem exists_turn_behind {u : Text} {ink : List Nat} (hu : u ≠ [])
    (hcross : Crosses .rust .start p.utf8 u.utf8 .code ink) :
    ∃ turn ∈ turns .rust (p ++ u), turn.state.offset = p.byteLength ∧ turn.state.mode = .code := by
  have hne : u.utf8 ≠ [] := by
    cases u with
    | nil => exact absurd rfl hu
    | cons c u => simp [String.utf8EncodeChar_ne_nil]
  obtain ⟨b, bytes, hbytes⟩ := List.exists_cons_of_ne_nil hne
  have howed : (State.start.beyond p.utf8 .code).owed = 0 := rfl
  have hoffset : (State.start.beyond p.utf8 .code).offset = p.byteLength := by
    rw [State.beyond, Text.length_utf8]
    exact Nat.zero_add _
  rw [turns, Text.utf8_append, turnsFrom_append, hcross.reaches, hbytes, turnsFrom_cons,
    if_pos howed]
  exact ⟨_, List.mem_append_right _ (List.mem_cons_self ..), hoffset, rfl⟩

/-- No line that ends in a text that the pass skips is marked. -/
theorem not_mem_markedLines_of_skips {u : Text} (hskips : Skips .start p u .code) {k : Nat}
    (hk : k < p.count '\n') : k ∉ markedLines (turns .rust (p ++ u)) := by
  rw [turns, Text.utf8_append, turnsFrom_append, markedLines_append, List.mem_append]
  rintro (hn | hn)
  · cases (hskips.marks k).mp hn
  · rw [hskips.reaches] at hn
    have hle := le_of_mem_markedLines hn
    rw [line_beyond_start] at hle
    omega

/-- Skipping and the pass agree on comments. The number of bytes that skipping counts in a block
comment, from behind its opening marker on, is where the pass first returns from it, and skipping
finds no end exactly if the pass is in a block comment behind every turn. And if skipping leaves
something of a text, then a turn begins there that is outside comments and strings. What is skipped
is made of white space and plain comments; if the pass knows all that white space as blank, no line
that ends there is a code line. -/
theorem skipTrivia_agrees :
    (∀ rest : Text, let text := '/' :: '*' :: rest
      (∀ n, blockLength? rest = some n ↔ firstReturn? text = some (n + 2)) ∧
      (blockLength? rest = none ↔
        ∀ turn ∈ turns .rust text, ∃ depth, turn.step.next = .block depth)) ∧
    ∀ t p : Text, t = p ++ skipTrivia t → skipTrivia t ≠ [] →
      (∃ turn ∈ turns .rust t, turn.state.offset = p.byteLength ∧ turn.state.mode = .code) ∧
      (∃ items, (∀ item ∈ items, Trivium.Plain item) ∧ p = Trivium.spell items) ∧
      ∀ items, (∀ item ∈ items, Trivium.Plain item) → p = Trivium.spell items →
        (∀ c, .blank c ∈ items → isBlankChar c = true) →
        ∀ k < p.count '\n', (SourceText.ofText t .rust).codeLines[k]? = some false := by
  refine ⟨fun rest => ⟨fun n => ?_, ?_⟩, fun t p ht hne => ?_⟩
  · rw [firstReturn?_eq, Option.map_eq_some_iff]
    simp
  · rw [← firstReturn?_eq_none_iff, firstReturn?_eq, Option.map_eq_none_iff]
  · obtain ⟨items, hitems, rfl⟩ := exists_spell_of_skipTrivia ht hne
    obtain ⟨ink, hcross⟩ := @crosses_spell items .start hitems (skipTrivia t) rfl rfl
    have hturn := exists_turn_behind hne hcross
    rw [← ht] at hturn
    refine ⟨hturn, ⟨items, hitems, rfl⟩, fun items hitems hspell hblank k hk => ?_⟩
    have hskips : Skips .start (Trivium.spell items) (skipTrivia t) .code :=
      (padding_spell hitems hblank).skips rfl rfl
    have hnone := not_mem_markedLines_of_skips (hspell ▸ hskips) hk
    rw [← ht] at hnone
    have hle : k ≤ t.count '\n' := by
      rw [ht, List.count_append]
      omega
    rw [SourceText.getElem?_codeLines hle, decide_eq_false hnone]

/-- A block comment in which markers overlap and another comment is open for a while, and a line
comment. -/
def overlapping : List Trivium :=
  [.blockComment "/ /*/ é */ **/".toList, .blank '\n', .lineComment " b".toList, .blank '\t']

theorem skipTrivia_agrees_overlapping :
    let content : Text := "/ /*/ é */ **/".toList
    let p := Trivium.spell overlapping
    let t := p ++ "fn".toList
    (blockLength? content = some 15 ∧ firstReturn? ('/' :: '*' :: content) = some 17) ∧
    (blockLength? "/ /*/ */".toList = none ∧
      ∀ turn ∈ turns .rust "/*/ /*/ */".toList, ∃ depth, turn.step.next = .block depth) ∧
    (t = p ++ skipTrivia t ∧ skipTrivia t ≠ [] ∧
      ∃ turn ∈ turns .rust t, turn.state.offset = p.byteLength ∧ turn.state.mode = .code) ∧
    ((∀ item ∈ overlapping, item.Plain) ∧ (∀ c, .blank c ∈ overlapping → isBlankChar c = true) ∧
      1 < p.count '\n' ∧ (SourceText.ofText t .rust).codeLines[1]? = some false) := by
  intro content p t
  obtain ⟨hblock, hskip⟩ := skipTrivia_agrees
  have hlength : blockLength? content = some 15 := by decide
  have hopen : blockLength? "/ /*/ */".toList = none := by decide
  have ht : t = p ++ skipTrivia t := by decide
  have hne : skipTrivia t ≠ [] := by decide
  have hitems : ∀ item ∈ overlapping, item.Plain := by decide +kernel
  have hblank : ∀ c, .blank c ∈ overlapping → isBlankChar c = true := by
    intro c hc
    simp [overlapping] at hc
    rcases hc with rfl | rfl <;> rfl
  obtain ⟨hturn, -, hlines⟩ := hskip t p ht hne
  exact ⟨⟨hlength, ((hblock content).1 15).mp hlength⟩, ⟨hopen, (hblock _).2.mp hopen⟩,
    ⟨ht, hne, hturn⟩, hitems, hblank, by decide,
    hlines overlapping hitems rfl hblank 1 (by decide)⟩

end Rust

end ClosureLint
