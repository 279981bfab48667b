import ClosureLint.Proofs.Comment.Restart
import ClosureLint.Proofs.Rust.FrontEnd
import ClosureLint.Proofs.Rust.TokenPieces

/-! What the comment pass marks of a source. Where no part of the source is of a form that the pass
misreads, it cuts the source into pieces along the parts, and marks the lines in which tokens begin
and end. -/

namespace ClosureLint

namespace Comment.Piece

theorem inkAll_append (line : Nat) (ps qs : List Piece) :
    inkAll line (ps ++ qs) = inkAll line ps ++ inkAll (line + (spell ps).count '\n') qs := by
  induction ps generalizing line with
  | nil => simp [inkAll]
  | cons p ps ih =>
    rw [List.cons_append, inkAll, inkAll, ih, spell_cons, List.count_append, List.append_assoc,
      Nat.add_assoc]

theorem not_isComment_of_isSolid {p : Piece} (h : p.isSolid = true) : p.isComment = false := by
  cases p with
  | lineComment => cases h
  | blockComment => cases h
  | _ => rfl

/-- A solid piece at the front marks the line in which the pieces begin. -/
theorem mem_inkAll_head {line : Nat} {p : Piece} {ps : List Piece} {behind rest : Text}
    (hfit : FitAll rest behind ps) (hp : p ∈ ps.head?) (hsolid : p.isSolid = true) :
    line ∈ inkAll line ps := by
  cases ps with
  | nil => cases hp
  | cons q ps =>
    obtain rfl : q = p := Option.some.inj hp
    obtain ⟨⟨c, v, ht, hc⟩, -⟩ := solid_ends hsolid hfit.1
    exact mem_inkAll.mpr ⟨[], q, ps, rfl, not_isComment_of_isSolid hsolid, [], c, v, ht, hc, rfl⟩

theorem mem_inkAll_last {line : Nat} {p : Piece} {ps : List Piece} {behind rest : Text}
    (hfit : FitAll rest behind ps) (hp : p ∈ ps.getLast?) (hsolid : p.isSolid = true) :
    ∃ u c, spell ps = u ++ [c] ∧ c ≠ '\n' ∧ line + u.count '\n' ∈ inkAll line ps := by
  obtain ⟨front, rfl⟩ := List.getLast?_eq_some_iff.mp hp
  obtain ⟨-, u, c, ht, hc⟩ := solid_ends hsolid (fitAll_append.mp hfit).2.1
  refine ⟨spell front ++ u, c, by simp [ht], ?_, mem_inkAll.mpr
    ⟨front, p, [], rfl, not_isComment_of_isSolid hsolid, u, c, [], ht, hc, rfl⟩⟩
  rintro rfl
  cases hc

end Comment.Piece

namespace Rust

open Comment (Piece Mode Stands stateAfter stateAfter_place line_stateAfter_le markedLines
  markedLines_append turns turnsFrom turnsFrom_append)
open Comment.Piece (spell FitAll inkAll mem_inkAll_head mem_inkAll_last)

/-- None of some parts is misread where they stand between the characters `behind` them, nearest
first, and the `rest` of the text. -/
def Clear (rest : Text) : (behind : Text) → List Part → Prop
  | _, [] => True
  | behind, p :: parts =>
    ¬ Misread behind p.text (written parts ++ rest) ∧ Clear rest (p.text.reverse ++ behind) parts

/-- Lines with the first and the last character of each token are marked. -/
def TokensMarked (line : Nat) (marked : List Nat) (parts : List Part) : Prop :=
  ∀ before p after, parts = before ++ p :: after → p.isToken = true →
    line + (written before).count '\n' ∈ marked ∧
      ∃ u c, p.text = u ++ [c] ∧ c ≠ '\n' ∧ line + (written before ++ u).count '\n' ∈ marked

theorem TokensMarked.mono {line : Nat} {marked marked' : List Nat} {parts : List Part}
    (h : TokensMarked line marked parts) (hsub : marked ⊆ marked') :
    TokensMarked line marked' parts := by
  intro before p after hparts htoken
  obtain ⟨hfirst, u, c, ht, hc, hlast⟩ := h before p after hparts htoken
  exact ⟨hsub hfirst, u, c, ht, hc, hsub hlast⟩

/-- The parts at the front of a text are cut into pieces as long as none of them is misread, and the
pieces mark the lines of their tokens. -/
theorem FallsInto.pieces {t behind : Text} {parts after : List Part}
    (h : FallsInto t (parts ++ after)) (hapart : Apart behind t)
    (hclear : Clear (written after) behind parts) :
    ∃ ps, spell ps = written parts ∧ FitAll (written after) behind ps ∧
      ∀ line, TokensMarked line (inkAll line ps) parts := by
  induction parts generalizing t behind with
  | nil => exact ⟨[], rfl, trivial, fun _ before p after hparts => by simp at hparts⟩
  | cons part parts ih =>
    rw [List.cons_append] at h
    cases h with
    | @cons _ lexeme? n _ hne hpart hrest =>
    rw [Clear, ← written_append, hrest.written_eq] at hclear
    have htaken := partAt?_taken hapart hpart hclear.1
    obtain ⟨ps, hps, hfit, hmarked⟩ := ih hrest htaken.apart hclear.2
    obtain ⟨qs, hqs, hqfit, hsolid⟩ : ∃ qs, spell qs = t.take n ∧ FitAll (t.drop n) behind qs ∧
        (Part.isToken ⟨t.take n, lexeme?⟩ = true →
          (∃ p ∈ qs.head?, p.isSolid = true) ∧ ∃ p ∈ qs.getLast?, p.isSolid = true) := by
      by_cases htoken : Part.isToken ⟨t.take n, lexeme?⟩ = true
      · obtain ⟨qs, hqs, hqfit, hsolid⟩ := htaken.readable htoken
        exact ⟨qs, hqs, hqfit, fun _ => hsolid⟩
      · obtain ⟨qs, hqs, hqfit⟩ := htaken.cuts
        exact ⟨qs, hqs, hqfit, fun h => absurd h htoken⟩
    refine ⟨qs ++ ps, ?_, Piece.fitAll_append.mpr ⟨?_, ?_⟩, ?_⟩
    · rw [Piece.spell_append, hqs, hps, written_cons]
    · rwa [hps, ← written_append, hrest.written_eq]
    · rwa [hqs]
    · intro line before p after hparts htoken
      rw [Piece.inkAll_append, hqs]
      cases before with
      | nil =>
        obtain ⟨rfl, rfl⟩ := List.cons.inj hparts
        obtain ⟨⟨q, hq, hqsolid⟩, q', hq', hqsolid'⟩ := hsolid htoken
        obtain ⟨u, c, ht, hc, hlast⟩ := @mem_inkAll_last line q' qs _ _ hqfit hq' hqsolid'
        exact ⟨List.mem_append_left _ (mem_inkAll_head hqfit hq hqsolid), u, c, hqs ▸ ht, hc,
          List.mem_append_left _ hlast⟩
      | cons b before =>
        obtain ⟨rfl, rfl⟩ := List.cons.inj hparts
        obtain ⟨hfirst, u, c, ht, hc, hlast⟩ :=
          hmarked (line + (t.take n).count '\n') before p after rfl htoken
        rw [Nat.add_assoc, ← List.count_append] at hfirst hlast
        refine ⟨List.mem_append_right _ hfirst, u, c, ht, hc, List.mem_append_right _ ?_⟩
        rwa [written_cons, List.append_assoc]

/-! ### Whole sources -/

/-- The comment pass reads the first `n` bytes of a source as the lexer does: it is outside block
comments and literals where the line of an interpreter ends, and misreads no part of the code that
ends within these bytes. -/
structure Legible (t : Text) (n : Nat) : Prop where
  begins : ∀ front, t = front ++ (Preamble.split t).rest →
    (stateAfter .rust .start front.utf8 (Preamble.split t).rest.utf8).owed = 0 ∧
      (stateAfter .rust .start front.utf8 (Preamble.split t).rest.utf8).mode ∈
        [Mode.code, Mode.lineComment]
  clear : ∀ front parts after, t = front ++ (Preamble.split t).rest →
    (Preamble.split t).rest = bom (Preamble.split t).rest ++ written (parts ++ after) →
      FallsInto (written (parts ++ after)) (parts ++ after) →
        (front ++ (bom (Preamble.split t).rest ++ written parts)).byteLength ≤ n →
          Clear (written after) ((bom (Preamble.split t).rest).reverse ++ front.reverse) parts

theorem apart_front {front rest : Text}
    (h : front = [] ∨ front = ['\ufeff'] ∨ rest = [] ∨ rest.head? = some '\n') :
    Apart front.reverse rest := by
  rcases h with rfl | rfl | rfl | h
  · exact nofun
  · exact Apart.of_behind (by decide)
  · exact fun _ => rfl
  · intro _
    rw [h]
    rfl

theorem bom_pieces {front rest code : Text} (hrest : rest = bom rest ++ code)
    (hapart : Apart front rest) : ∃ ps, spell ps = bom rest ∧ FitAll code front ps ∧
      Apart ((bom rest).reverse ++ front) code := by
  unfold bom at hrest ⊢
  split at hrest
  next hmark =>
    rw [if_pos hmark]
    exact ⟨[.code '\ufeff'], rfl,
      ⟨isCode_of_plain (.inl (by decide)) fun h => absurd h (by decide), trivial⟩,
      Apart.of_behind (by decide)⟩
  next hmark =>
    rw [if_neg hmark]
    refine ⟨[], rfl, trivial, ?_⟩
    rw [List.nil_append] at hrest
    rwa [← hrest]

/-- Where the code of a legible source begins, the pass stands in its first line, outside block
comments and literals. -/
theorem Legible.begins_code {t : Text} {n : Nat} (h : Legible t n) :
    ∃ front s, t = front ++ (Preamble.split t).rest ∧
      (Preamble.split t).length = front.byteLength ∧ Apart front.reverse (Preamble.split t).rest ∧
        s = stateAfter .rust .start front.utf8 (Preamble.split t).rest.utf8 ∧ s.line = 0 ∧
          Stands s front.reverse (Preamble.split t).rest := by
  obtain ⟨front, ht, hlength, hline, hfront⟩ := split_front t
  obtain ⟨howed, hmode⟩ := h.begins front ht
  obtain ⟨-, hbehind⟩ := stateAfter_place .rust .start front.utf8 (Preamble.split t).rest.utf8
  refine ⟨front, _, ht, hlength, apart_front hfront, rfl, ?_, howed, ?_, ?_⟩
  · have := line_stateAfter_le .rust .start front.utf8 (Preamble.split t).rest.utf8
    rw [Text.count_newline, List.count_eq_zero.mpr hline] at this
    exact Nat.le_zero.mp this
  · rcases hfront with rfl | rfl | hend
    · exact .inl rfl
    · exact .inl rfl
    · simp only [List.mem_cons, List.not_mem_nil, or_false] at hmode
      exact hmode.imp_right fun hm => ⟨hm, hend⟩
  · rw [hbehind, Text.utf8Back, List.reverse_reverse]
    exact List.append_nil _

/-- The lines in which tokens of a legible part of a source begin and end are marked. -/
theorem Legible.tokensMarked {t : Text} {n : Nat} {parts after : List Part} (h : Legible t n)
    (hcode : (Preamble.split t).rest = bom (Preamble.split t).rest ++ written (parts ++ after))
    (hparts : FallsInto (written (parts ++ after)) (parts ++ after))
    (hle : (Preamble.split t).length + (bom (Preamble.split t).rest).byteLength +
      (written parts).byteLength ≤ n) :
    TokensMarked 0 (markedLines (turns .rust t)) parts := by
  obtain ⟨front, s, ht, hlength, hapart, hs, hzero, hstands⟩ := h.begins_code
  obtain ⟨ps, hps, hfit, hapart⟩ := bom_pieces hcode hapart
  have hclear := h.clear front parts after ht hcode hparts (by
    rw [Text.byteLength_append, Text.byteLength_append, ← hlength]
    omega)
  obtain ⟨qs, hqs, hqfit, hmarked⟩ := hparts.pieces hapart hclear
  generalize hrest : (Preamble.split t).rest = rest at *
  have hall : spell (ps ++ qs) ++ written after = rest := by
    rw [Piece.spell_append, hps, hqs, List.append_assoc, ← written_append]
    exact hcode.symm
  obtain ⟨m, hcross, -⟩ := Piece.crosses_all (hall ▸ hstands)
    (Piece.fitAll_append.mpr ⟨by rwa [hqs, ← written_append], by rwa [hps]⟩)
  have hmark : (bom rest).count '\n' = 0 := by
    unfold bom
    split <;> rfl
  refine (hmarked 0).mono fun k hk => ?_
  have hk : k ∈ inkAll 0 (ps ++ qs) := by
    rw [Piece.inkAll_append, hps, hmark]
    exact List.mem_append_right _ hk
  -- The marked lines of the source are those of the turns in front of the code, those that the
  -- pieces carry, and those behind them.
  have hturns : turns .rust t = Comment.turnsOver .rust .start front.utf8 rest.utf8 ++
      turnsFrom .rust s ((spell (ps ++ qs)).utf8 ++ (written after).utf8) := by
    rw [turns, ht, Text.utf8_append, turnsFrom_append, ← Text.utf8_append, hall, hs]
  rw [hturns, markedLines_append, List.mem_append, turnsFrom_append, markedLines_append,
    List.mem_append, hcross.marks, hzero]
  exact .inr (.inl hk)

/-! ### Sources without parts that mislead -/

/-- Whether a part tells by itself that it is not misread: it has no single quote and no `r`, or it
begins with another character than the literals in question, and does not end with an `r`. -/
def Part.isHarmless (p : Part) : Bool :=
  p.text.all (fun c => c ≠ '\'' && c ≠ 'r') ||
    !(p.text.head?.any fun c => c == '\'' || c == 'b' || c == 'c') && p.text.getLast? ≠ some 'r'

theorem not_misread_of_isHarmless {p : Part} (h : p.isHarmless = true) (behind rest : Text) :
    ¬ Misread behind p.text rest := by
  simp only [Part.isHarmless, Bool.or_eq_true, List.all_eq_true, Bool.and_eq_true,
    Bool.not_eq_true', decide_eq_true_eq] at h
  rcases h with h | ⟨hhead, hlast⟩
  · intro hmis
    generalize p.text = text at h hmis
    cases hmis with
    | rawC => exact (h 'r' (by simp)).2 rfl
    | bareChar => exact (h '\'' (by simp)).1 rfl
    | longEscape => exact (h '\'' (by simp)).1 rfl
    | falseRaw => exact (h 'r' (by simp)).2 rfl
  · intro hmis
    generalize p.text = text at hhead hlast hmis
    cases hmis with
    | rawC => cases hhead
    | bareChar hstart | longEscape hstart =>
      simp only [List.mem_cons, List.not_mem_nil, or_false] at hstart
      rcases hstart with rfl | rfl <;> cases hhead
    | falseRaw => exact hlast (List.getLast?_concat ..)

theorem clear_of_isHarmless {rest behind : Text} {parts : List Part}
    (h : ∀ p ∈ parts, p.isHarmless = true) : Clear rest behind parts := by
  induction parts generalizing behind with
  | nil => trivial
  | cons p parts ih =>
    exact ⟨not_misread_of_isHarmless (h p List.mem_cons_self) _ _,
      ih fun q hq => h q (List.mem_cons_of_mem p hq)⟩

/-- A source without a preamble is legible if each of its parts tells that it is not misread. -/
theorem legible_of_isHarmless {t : Text} {parts : List Part} (hsplit : (Preamble.split t).rest = t)
    (hbom : bom t = []) (hparts : FallsInto t parts) (h : ∀ p ∈ parts, p.isHarmless = true)
    (n : Nat) : Legible t n where
  begins front ht := by
    rw [hsplit] at ht
    obtain rfl := List.append_left_eq_self.mp ht.symm
    exact ⟨rfl, List.mem_cons_self⟩
  clear front before after _ hcode hfalls _ := by
    rw [hsplit, hbom, List.nil_append] at hcode
    rw [← hcode] at hfalls
    obtain rfl := hparts.unique hfalls
    exact clear_of_isHarmless fun p hp => h p (List.mem_append_left _ hp)

end Rust

end ClosureLint
