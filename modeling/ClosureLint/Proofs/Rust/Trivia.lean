import ClosureLint.Proofs.Comment.Literal
import ClosureLint.Proofs.Rust.CommentShape
import ClosureLint.Rust.Preamble
import Mathlib.Data.List.TakeDrop

/-! What may stand between two tokens: blanks and comments, one behind the other in any number and
order, but no documentation. Skipping goes through all of it and stops where none of it begins. A
comment without an end is skipped as well, and with it the rest of the text. So `#!` opens an
attribute exactly if a bracket is the first thing behind it. -/

namespace ClosureLint.Rust

open Comment (Balanced)

/-! ### Block comments -/

theorem afterBlock?_balanced {depth : Nat} {content : Text} (h : Balanced (depth + 1) content)
    (rest : Text) : afterBlock? (depth + 1) (content ++ rest) = some rest := by
  generalize hdepth : depth + 1 = n at h
  induction h generalizing depth with
  | nil => cases hdepth
  | opening _ ih =>
    cases hdepth
    rw [List.cons_append, List.cons_append, afterBlock?]
    exact ih rfl
  | @closing outer content hcontent ih =>
    cases hdepth
    rw [List.cons_append, List.cons_append, afterBlock?]
    cases outer with
    | zero =>
      cases hcontent
      rfl
    | succ outer =>
      rw [if_neg (by omega)]
      exact ih rfl
  | @other outer c content hopen hclose hcontent ih =>
    cases hdepth
    have hne := hcontent.ne_nil
    rw [Comment.isPrefixOf_append_of_pair hne rest] at hopen hclose
    rw [List.cons_append, afterBlock?]
    · exact ih rfl
    · rintro tail rfl htail
      rw [htail] at hopen
      cases hopen
    · rintro tail rfl htail
      rw [htail] at hclose
      cases hclose

theorem two_le_length {depth : Nat} {content : Text} (h : Balanced (depth + 1) content) :
    2 ≤ content.length := by
  cases h with
  | opening _ => simp
  | closing _ => simp
  | other _ _ hcontent =>
    have hpos := List.length_pos_iff.mpr hcontent.ne_nil
    rw [List.length_cons]
    omega

theorem eq_closing {content : Text} (h : Balanced 1 content) {rest : Text}
    (hclose : ['*', '/'] <+: content ++ rest) : content = ['*', '/'] := by
  cases h with
  | opening _ => simp at hclose
  | closing hcontent =>
    cases hcontent
    rfl
  | other _ hno hcontent =>
    rw [Comment.isPrefixOf_append_of_pair hcontent.ne_nil rest] at hno
    rw [← List.isPrefixOf_iff_prefix, List.cons_append, hno] at hclose
    cases hclose

/-- The text behind the end of the open block comments is what follows a balanced content. -/
theorem afterBlock?_eq_some_iff {depth : Nat} {t rest : Text} :
    afterBlock? (depth + 1) t = some rest ↔
      ∃ content, t = content ++ rest ∧ Balanced (depth + 1) content := by
  refine ⟨fun h => ?_, ?_⟩
  · generalize hdepth : depth + 1 = n at h
    fun_induction afterBlock? n t generalizing depth with
    | case1 n t ih =>
      obtain ⟨content, rfl, hcontent⟩ := ih rfl h
      subst hdepth
      exact ⟨'/' :: '*' :: content, rfl, .opening hcontent⟩
    | case2 n t hle =>
      obtain rfl : depth = 0 := by omega
      subst hdepth
      cases h
      exact ⟨['*', '/'], rfl, .closing .nil⟩
    | case3 n t hlt ih =>
      obtain ⟨outer, rfl⟩ : ∃ outer, depth = outer + 1 := ⟨depth - 1, by omega⟩
      subst hdepth
      obtain ⟨content, rfl, hcontent⟩ := ih rfl h
      exact ⟨'*' :: '/' :: content, rfl, .closing hcontent⟩
    | case4 n c t hopen hclose ih =>
      obtain ⟨content, rfl, hcontent⟩ := ih hdepth h
      subst hdepth
      exact ⟨c :: content, rfl,
        .other (isPrefixOf_pair_eq_false hopen) (isPrefixOf_pair_eq_false hclose) hcontent⟩
    | case5 => cases h
  · rintro ⟨content, rfl, hcontent⟩
    exact afterBlock?_balanced hcontent rest

theorem afterBlock?_eq_none_iff {depth : Nat} {t : Text} :
    afterBlock? (depth + 1) t = none ↔ ∀ a b, t = a ++ b → ¬ Balanced (depth + 1) a := by
  simp only [Option.eq_none_iff_forall_ne_some, ne_eq, afterBlock?_eq_some_iff, not_exists, not_and]
  exact forall_comm

theorem balanced_iff {depth : Nat} {content : Text} :
    Balanced (depth + 1) content ↔ afterBlock? (depth + 1) content = some [] := by
  simp [afterBlock?_eq_some_iff]

instance (depth : Nat) (content : Text) : Decidable (Balanced (depth + 1) content) :=
  decidable_of_iff _ balanced_iff.symm

/-! ### Documentation -/

/-- The text behind the opener of a comment makes it one of documentation: it begins with an
exclamation mark, or with the opener's last character once more and not twice. -/
def Documents (marker : Char) (t : Text) : Prop :=
  t.head? = some '!' ∨ ∃ rest, t = marker :: rest ∧ rest.head? ≠ some marker

@[simp] theorem not_documents_nil (marker : Char) : ¬ Documents marker [] := by
  rintro (h | ⟨rest, h, -⟩) <;> cases h

@[simp] theorem documents_cons {marker c : Char} {t : Text} :
    Documents marker (c :: t) ↔ c = '!' ∨ c = marker ∧ t.head? ≠ some marker := by
  constructor
  · rintro (h | ⟨rest, h, hrest⟩)
    · exact .inl (Option.some.inj h)
    · cases h
      exact .inr ⟨rfl, hrest⟩
  · rintro (rfl | ⟨rfl, h⟩)
    · exact .inl rfl
    · exact .inr ⟨t, rfl, h⟩

theorem isDocumentation_iff {marker : Char} {t : Text} :
    isDocumentation marker t = true ↔ Documents marker t := by
  unfold isDocumentation
  split
  next => simp
  next c rest hc =>
    have hne : c ≠ '!' := hc
    simp [hne]
  next => simp

instance (marker : Char) (t : Text) : Decidable (Documents marker t) :=
  decidable_of_iff _ isDocumentation_iff

/-- Two characters behind the opener decide, and so does one if what follows means nothing. -/
theorem documents_append {marker : Char} {t rest : Text}
    (h : 2 ≤ t.length ∨ rest.head? ≠ some '!' ∧ rest.head? ≠ some marker) :
    Documents marker (t ++ rest) ↔ Documents marker t := by
  match t with
  | [] =>
    obtain ⟨hbang, hmarker⟩ := h.resolve_left (by simp)
    cases rest with
    | nil => rfl
    | cons c rest => simp_all
  | [c] =>
    obtain ⟨-, hmarker⟩ := h.resolve_left (by simp)
    simp [hmarker]
  | c :: d :: t => simp

/-! ### Trivia -/

/-- A piece of what means nothing between tokens. -/
inductive Trivium where
  | blank (c : Char)
  /-- A comment up to the end of its line, with the newline there. -/
  | lineComment (content : Text)
  /-- A comment whose content ends with the closing marker. -/
  | blockComment (content : Text)
  deriving DecidableEq, Repr

namespace Trivium

def text : Trivium → Text
  | .blank c => [c]
  | .lineComment content => '/' :: '/' :: (content ++ ['\n'])
  | .blockComment content => '/' :: '*' :: content

/-- A piece is white space, or a comment that is not for documentation. The comment without a
content is not for documentation, although its end looks like the opener of one. -/
def Plain : Trivium → Prop
  | .blank c => isWhiteSpace c = true
  | .lineComment content => '\n' ∉ content ∧ ¬ Documents '/' content
  | .blockComment content =>
    Balanced 1 content ∧ (content = ['*', '/'] ∨ ¬ Documents '*' content)

instance : DecidablePred Plain
  | .blank c => inferInstanceAs (Decidable (isWhiteSpace c = true))
  | .lineComment content => inferInstanceAs (Decidable ('\n' ∉ content ∧ ¬ Documents '/' content))
  | .blockComment content =>
    inferInstanceAs (Decidable (Balanced (0 + 1) content ∧ (_ ∨ ¬ Documents '*' content)))

def spell (items : List Trivium) : Text := items.flatMap text

@[simp] theorem spell_nil : spell [] = [] := rfl

@[simp] theorem spell_cons (item : Trivium) (items : List Trivium) :
    spell (item :: items) = item.text ++ spell items := rfl

theorem length_text_pos (item : Trivium) : 0 < item.text.length := by
  cases item <;> simp [text]

theorem length_le_spell (items : List Trivium) : items.length ≤ (spell items).length := by
  induction items with
  | nil => exact Nat.le_refl _
  | cons item items ih =>
    have hpos := item.length_text_pos
    rw [spell_cons, List.length_append, List.length_cons]
    omega

end Trivium

/-- Neither white space nor a comment begins here, unless it is documentation. -/
structure Stops (u : Text) : Prop where
  blank : ∀ c ∈ u.head?, isWhiteSpace c = false
  line : ∀ rest, u = '/' :: '/' :: rest → Documents '/' rest
  block : ∀ rest, u = '/' :: '*' :: rest → Documents '*' rest ∧ ¬ ['*', '/'] <+: rest

/-- A comment begins here that is not for documentation and has no end. -/
inductive Unended : Text → Prop
  | line {content : Text} : '\n' ∉ content → ¬ Documents '/' content →
    Unended ('/' :: '/' :: content)
  | block {content : Text} : (∀ a b, content = a ++ b → ¬ Balanced 1 a) →
    ¬ Documents '*' content → Unended ('/' :: '*' :: content)

def BeginsTrivia (t : Text) : Prop :=
  ∃ (item : Trivium) (rest : Text), item.Plain ∧ t = item.text ++ rest

theorem beginsTrivia_line {t : Text} (h : ¬ Documents '/' t) :
    BeginsTrivia ('/' :: '/' :: t) ∨ Unended ('/' :: '/' :: t) := by
  by_cases hn : '\n' ∈ t
  · obtain ⟨content, rest, rfl, hcontent⟩ := List.eq_append_cons_of_mem hn
    rw [documents_append (.inr ⟨by simp, by simp⟩)] at h
    exact .inl ⟨.lineComment content, rest, ⟨hcontent, h⟩, by simp [Trivium.text]⟩
  · exact .inr (.line hn h)

theorem beginsTrivia_block {t : Text} (h : Documents '*' t → ['*', '/'] <+: t) :
    BeginsTrivia ('/' :: '*' :: t) ∨ Unended ('/' :: '*' :: t) := by
  by_cases hend : ∃ content rest, t = content ++ rest ∧ Balanced 1 content
  · obtain ⟨content, rest, rfl, hcontent⟩ := hend
    refine .inl ⟨.blockComment content, rest, ⟨hcontent, ?_⟩, rfl⟩
    rw [documents_append (.inl (two_le_length hcontent))] at h
    exact Decidable.or_iff_not_imp_right.mpr fun hdoc =>
      eq_closing hcontent (h (Decidable.not_not.mp hdoc))
  · have hnone : ∀ a b, t = a ++ b → ¬ Balanced 1 a := fun a b ht ha => hend ⟨a, b, ht, ha⟩
    refine .inr (.block hnone fun hdoc => ?_)
    obtain ⟨rest, rfl⟩ := h hdoc
    exact hnone ['*', '/'] rest rfl (.closing .nil)

/-- At each place of a text there is a piece, or the pieces end in one way or the other. -/
theorem beginsTrivia_or_ends (t : Text) : BeginsTrivia t ∨ Stops t ∨ Unended t := by
  by_cases hblank : ∀ c ∈ t.head?, isWhiteSpace c = false
  case neg =>
    obtain ⟨c, hc, hwhite⟩ : ∃ c ∈ t.head?, isWhiteSpace c = true := by simpa using hblank
    obtain ⟨rest, rfl⟩ := List.head?_eq_some_iff.mp hc
    exact .inl ⟨.blank c, rest, hwhite, rfl⟩
  by_cases hline : ∀ rest, t = '/' :: '/' :: rest → Documents '/' rest
  case neg =>
    obtain ⟨rest, rfl, hdoc⟩ : ∃ rest, t = '/' :: '/' :: rest ∧ ¬ Documents '/' rest := by
      simpa using hline
    exact (beginsTrivia_line hdoc).imp_right .inr
  by_cases hblock : ∀ rest, t = '/' :: '*' :: rest → Documents '*' rest ∧ ¬ ['*', '/'] <+: rest
  case neg =>
    obtain ⟨rest, rfl, hdoc⟩ : ∃ rest, t = '/' :: '*' :: rest ∧
        (Documents '*' rest → ['*', '/'] <+: rest) := by
      simpa using hblock
    exact (beginsTrivia_block hdoc).imp_right .inr
  exact .inr (.inl ⟨hblank, hline, hblock⟩)

/-- Every text is made of pieces, up to the end of them. -/
theorem exists_spell (t : Text) : ∃ items u, (∀ item ∈ items, Trivium.Plain item) ∧
    t = Trivium.spell items ++ u ∧ (Stops u ∨ Unended u) := by
  induction hn : t.length using Nat.strongRecOn generalizing t with
  | _ n ih =>
    rcases beginsTrivia_or_ends t with ⟨item, rest, hitem, rfl⟩ | hend
    · have hlt : rest.length < n := by
        rw [← hn, List.length_append]
        have := item.length_text_pos
        omega
      obtain ⟨items, u, hitems, hrest, hend⟩ := ih _ hlt rest rfl
      refine ⟨item :: items, u, List.forall_mem_cons.mpr ⟨hitem, hitems⟩, ?_, hend⟩
      rw [Trivium.spell_cons, List.append_assoc, ← hrest]
    · exact ⟨[], t, nofun, rfl, hend⟩

/-! ### Skipping -/

section Skipping

variable {fuel : Nat} {t u v : Text}

theorem skipTriviaFrom_nil (fuel : Nat) : skipTriviaFrom fuel [] = [] := by
  cases fuel <;> rfl

theorem skipTriviaFrom_blank {c : Char} (h : isWhiteSpace c = true) (t : Text) :
    skipTriviaFrom (fuel + 1) (c :: t) = skipTriviaFrom (fuel + 1) t := by
  rw [skipTriviaFrom, skipTriviaFrom, List.dropWhile_cons_of_pos h]

theorem skipTriviaFrom_line (h : ¬ Documents '/' t) :
    skipTriviaFrom (fuel + 1) ('/' :: '/' :: t) = skipTriviaFrom fuel (afterLine t) := by
  have hblank : ('/' :: '/' :: t).dropWhile isWhiteSpace = '/' :: '/' :: t := rfl
  rw [skipTriviaFrom, hblank]
  exact if_neg fun hdoc => h (isDocumentation_iff.mp hdoc)

theorem skipTriviaFrom_block (h : Documents '*' t → ['*', '/'] <+: t) :
    skipTriviaFrom (fuel + 1) ('/' :: '*' :: t) =
      match afterBlock? 1 t with
      | some next => skipTriviaFrom fuel next
      | none => [] := by
  have hblank : ('/' :: '*' :: t).dropWhile isWhiteSpace = '/' :: '*' :: t := rfl
  rw [skipTriviaFrom, hblank]
  refine if_neg fun hdoc => ?_
  obtain ⟨hdoc, hclose⟩ := Bool.and_eq_true_iff.mp hdoc
  rw [List.isPrefixOf_iff_prefix.mpr (h (isDocumentation_iff.mp hdoc))] at hclose
  cases hclose

theorem afterLine_append (h : '\n' ∉ t) (u : Text) : afterLine (t ++ u) = afterLine u := by
  have hall : ∀ c ∈ t, decide (c ≠ '\n') = true := by
    intro c hc
    rw [decide_eq_true_eq]
    rintro rfl
    exact h hc
  rw [afterLine, List.dropWhile_append_of_pos hall]
  rfl

theorem skipTriviaFrom_item {item : Trivium} (h : item.Plain)
    (hnext : ∀ m, fuel ≤ m → skipTriviaFrom (m + 1) t = v) :
    skipTriviaFrom (fuel + 2) (item.text ++ t) = v := by
  cases item with
  | blank c =>
    rw [Trivium.text, List.singleton_append, skipTriviaFrom_blank h]
    exact hnext (fuel + 1) (Nat.le_succ fuel)
  | lineComment content =>
    obtain ⟨hn, hdoc⟩ := h
    have hline := @documents_append '/' content ('\n' :: t) (.inr ⟨by simp, by simp⟩)
    rw [← hline] at hdoc
    rw [Trivium.text, List.cons_append, List.cons_append, List.append_assoc, List.singleton_append,
      skipTriviaFrom_line hdoc, afterLine_append hn]
    exact hnext fuel (Nat.le_refl fuel)
  | blockComment content =>
    obtain ⟨hcontent, hplain⟩ := h
    have hdoc : Documents '*' (content ++ t) → ['*', '/'] <+: content ++ t := by
      rw [documents_append (.inl (two_le_length hcontent))]
      intro hdoc
      rw [hplain.resolve_right (not_not_intro hdoc)]
      exact List.prefix_append ..
    rw [Trivium.text, List.cons_append, List.cons_append, skipTriviaFrom_block hdoc,
      afterBlock?_balanced hcontent]
    exact hnext fuel (Nat.le_refl fuel)

/-- Skipping leaves any pieces behind, with one round for each of them at most. -/
theorem skipTriviaFrom_spell {items : List Trivium} (h : ∀ item ∈ items, item.Plain)
    (hnext : ∀ m, skipTriviaFrom (m + 1) u = v) {fuel : Nat} (hfuel : items.length ≤ fuel) :
    skipTriviaFrom (fuel + 1) (Trivium.spell items ++ u) = v := by
  induction items generalizing fuel with
  | nil => exact hnext fuel
  | cons item items ih =>
    obtain ⟨hitem, hitems⟩ := List.forall_mem_cons.mp h
    obtain ⟨fuel, rfl⟩ : ∃ n, fuel = n + 1 := ⟨fuel - 1, by rw [List.length_cons] at hfuel; omega⟩
    rw [Trivium.spell_cons, List.append_assoc]
    refine skipTriviaFrom_item hitem fun m hm => ih hitems ?_
    rw [List.length_cons] at hfuel
    omega

theorem skipTriviaFrom_stops (h : Stops u) (fuel : Nat) : skipTriviaFrom (fuel + 1) u = u := by
  have hblank : u.dropWhile isWhiteSpace = u := by
    cases u with
    | nil => rfl
    | cons c u => exact List.dropWhile_cons_of_neg (by simpa using h.blank c rfl)
  rw [skipTriviaFrom, hblank]
  split
  next rest => exact if_pos (isDocumentation_iff.mpr (h.line rest rfl))
  next rest =>
    obtain ⟨hdoc, hclose⟩ := h.block rest rfl
    refine if_pos (Bool.and_eq_true_iff.mpr ⟨isDocumentation_iff.mpr hdoc, ?_⟩)
    rw [Bool.not_eq_true', Bool.eq_false_iff]
    exact fun hprefix => hclose (List.isPrefixOf_iff_prefix.mp hprefix)
  next => rfl

theorem skipTriviaFrom_unended (h : Unended u) (fuel : Nat) : skipTriviaFrom (fuel + 1) u = [] := by
  cases h with
  | @line content hn hdoc =>
    have hafter : afterLine content = [] := by
      rw [← List.append_nil content, afterLine_append hn]
      rfl
    rw [skipTriviaFrom_line hdoc, hafter, skipTriviaFrom_nil]
  | @block content hnone hdoc =>
    rw [skipTriviaFrom_block fun h => absurd h hdoc, afterBlock?_eq_none_iff.mpr hnone]

/-- Any fuel beyond the length of a text is enough for its pieces. -/
theorem skipTriviaFrom_of_length_lt {items : List Trivium} (h : ∀ item ∈ items, item.Plain)
    (hnext : ∀ m, skipTriviaFrom (m + 1) u = v)
    (hfuel : (Trivium.spell items ++ u).length < fuel) :
    skipTriviaFrom fuel (Trivium.spell items ++ u) = v := by
  obtain ⟨fuel, rfl⟩ : ∃ n, fuel = n + 1 := ⟨fuel - 1, by omega⟩
  refine skipTriviaFrom_spell h hnext ?_
  have := Trivium.length_le_spell items
  rw [List.length_append] at hfuel
  omega

/-- What is not skipped is the text from where the pieces end in a place without an open comment. -/
theorem skipTrivia_spell {items : List Trivium} (h : ∀ item ∈ items, item.Plain) (hu : Stops u) :
    skipTrivia (Trivium.spell items ++ u) = u :=
  skipTriviaFrom_of_length_lt h (skipTriviaFrom_stops hu) (Nat.lt_succ_self _)

theorem skipTrivia_unended {items : List Trivium} (h : ∀ item ∈ items, item.Plain)
    (hu : Unended u) : skipTrivia (Trivium.spell items ++ u) = [] :=
  skipTriviaFrom_of_length_lt h (skipTriviaFrom_unended hu) (Nat.lt_succ_self _)

theorem skipTrivia_suffix (t : Text) : skipTrivia t <:+ t := by
  obtain ⟨items, u, hitems, rfl, hu | hu⟩ := exists_spell t
  · rw [skipTrivia_spell hitems hu]
    exact List.suffix_append ..
  · rw [skipTrivia_unended hitems hu]
    exact List.nil_suffix

/-- The number of rounds is never what ends skipping. -/
theorem skipTriviaFrom_eq (h : t.length < fuel) : skipTriviaFrom fuel t = skipTrivia t := by
  obtain ⟨items, u, hitems, rfl, hu | hu⟩ := exists_spell t
  · rw [skipTrivia_spell hitems hu, skipTriviaFrom_of_length_lt hitems (skipTriviaFrom_stops hu) h]
  · rw [skipTrivia_unended hitems hu,
      skipTriviaFrom_of_length_lt hitems (skipTriviaFrom_unended hu) h]

end Skipping

/-! ### The line of an interpreter -/

/-- A bracket is the first thing behind blanks and comments. -/
def OpensAttribute (rest : Text) : Prop :=
  ∃ items u, (∀ item ∈ items, Trivium.Plain item) ∧ rest = Trivium.spell items ++ '[' :: u

theorem stops_bracket (u : Text) : Stops ('[' :: u) := by
  refine ⟨fun c hc => ?_, fun rest h => ?_, fun rest h => ?_⟩
  · cases hc
    rfl
  · cases h
  · cases h

theorem opensShebang_iff {rest : Text} :
    opensShebang ('#' :: '!' :: rest) = true ↔ ¬ OpensAttribute rest := by
  rw [opensShebang, bne_iff_ne]
  refine not_congr ⟨?_, ?_⟩
  · intro h
    obtain ⟨items, u, hitems, rfl, hu | hu⟩ := exists_spell rest
    · rw [skipTrivia_spell hitems hu] at h
      obtain ⟨u, rfl⟩ := List.head?_eq_some_iff.mp h
      exact ⟨items, u, hitems, rfl⟩
    · rw [skipTrivia_unended hitems hu] at h
      cases h
  · rintro ⟨items, u, hitems, rfl⟩
    rw [skipTrivia_spell hitems (stops_bracket u)]
    rfl

theorem cutShebang_of_opensAttribute {rest : Text} (h : OpensAttribute rest) :
    Preamble.cutShebang ('#' :: '!' :: rest) = ⟨0, '#' :: '!' :: rest⟩ :=
  if_neg fun hopens => opensShebang_iff.mp hopens h

theorem cutShebang_of_not_opensAttribute {rest : Text} (h : ¬ OpensAttribute rest) :
    let source := '#' :: '!' :: rest
    Preamble.cutShebang source =
      ⟨Text.byteLength (source.takeWhile (· ≠ '\n')), source.dropWhile (· ≠ '\n')⟩ := by
  intro source
  rw [Preamble.cutShebang, if_pos (opensShebang_iff.mpr h), List.span_eq_takeWhile_dropWhile]

/-- Skipping strips what means nothing at the front of a text, and nothing else. Behind any white
space and plain comments, it stops where neither begins, with documentation or anything else, and a
comment without an end is skipped to the end of the text. Every text is of one of these two forms,
so what is left is always the end of the text, and the number of rounds is never what ends skipping.
And `#!` in front of a source, with or without a byte order mark, opens an attribute exactly if a
bracket is the first thing behind white space and plain comments; otherwise its line is cut off. -/
theorem skipTrivia_strips :
    (∀ items u, (∀ item ∈ items, Trivium.Plain item) →
      (Stops u → skipTrivia (Trivium.spell items ++ u) = u) ∧
        (Unended u → skipTrivia (Trivium.spell items ++ u) = [])) ∧
    (∀ t, (∃ items u, (∀ item ∈ items, Trivium.Plain item) ∧ t = Trivium.spell items ++ u ∧
        (Stops u ∨ Unended u)) ∧
      skipTrivia t <:+ t ∧ ∀ fuel, t.length < fuel → skipTriviaFrom fuel t = skipTrivia t) ∧
    ∀ rest, let source := '#' :: '!' :: rest
      (OpensAttribute rest → Preamble.split source = ⟨0, source⟩ ∧
        Preamble.split ('\ufeff' :: source) = ⟨3, source⟩) ∧
      (¬ OpensAttribute rest →
        let line : Text := source.takeWhile (· ≠ '\n')
        let next : Text := source.dropWhile (· ≠ '\n')
        Preamble.split source = ⟨line.byteLength, next⟩ ∧
          Preamble.split ('\ufeff' :: source) = ⟨3 + line.byteLength, next⟩) := by
  refine ⟨fun items u hitems => ⟨skipTrivia_spell hitems, skipTrivia_unended hitems⟩,
    fun t => ⟨exists_spell t, skipTrivia_suffix t, fun _ => skipTriviaFrom_eq⟩, fun rest => ?_⟩
  intro source
  have hplain : Preamble.split source = Preamble.cutShebang source := rfl
  have hmark : Preamble.split ('\ufeff' :: source) =
      ⟨3 + (Preamble.cutShebang source).length, (Preamble.cutShebang source).rest⟩ := rfl
  rw [hplain, hmark]
  constructor
  · intro h
    rw [cutShebang_of_opensAttribute h]
    exact ⟨rfl, rfl⟩
  · intro h
    rw [cutShebang_of_not_opensAttribute h]
    exact ⟨rfl, rfl⟩

/-- Blanks of two kinds and comments of all shapes: with four slashes, without a content, with a
single star, and with another comment inside. -/
def mixed : List Trivium :=
  [.blank ' ', .lineComment "// a".toList, .blockComment "*/".toList, .blockComment "**/".toList,
    .blank '\u3000', .blockComment " /*/ b */ */".toList]

/-- Behind them stand documentation, a comment without an end, and a bracket. -/
theorem skipTrivia_strips_mixed :
    (∀ item ∈ mixed, item.Plain) ∧
    (Stops "/// d".toList ∧ skipTrivia (Trivium.spell mixed ++ "/// d".toList) = "/// d".toList) ∧
    (Unended "/* /* */".toList ∧ skipTrivia (Trivium.spell mixed ++ "/* /* */".toList) = []) ∧
    (3 < 4 ∧ skipTriviaFrom 4 "//\n".toList = skipTrivia "//\n".toList) ∧
    (OpensAttribute (Trivium.spell mixed ++ "[a]".toList) ∧
      Preamble.split ('#' :: '!' :: (Trivium.spell mixed ++ "[a]".toList)) =
        ⟨0, '#' :: '!' :: (Trivium.spell mixed ++ "[a]".toList)⟩) ∧
    ¬ OpensAttribute " /** d */\n[a]".toList ∧
      Preamble.split "\ufeff#! /** d */\n[a]".toList = ⟨14, "\n[a]".toList⟩ := by
  have hmixed : ∀ item ∈ mixed, item.Plain := by decide +kernel
  have hstops : Stops "/// d".toList := by
    refine ⟨fun c hc => ?_, fun rest h => ?_, fun rest h => ?_⟩
    · obtain rfl : '/' = c := Option.some.inj hc
      rfl
    · obtain rfl : rest = "/ d".toList := by simpa using h.symm
      decide
    · cases h
  have hunended : Unended "/* /* */".toList :=
    .block (afterBlock?_eq_none_iff.mp (by decide)) (by decide)
  have hbracket : OpensAttribute (Trivium.spell mixed ++ "[a]".toList) :=
    ⟨mixed, "a]".toList, hmixed, rfl⟩
  have hdoc : ¬ OpensAttribute " /** d */\n[a]".toList := opensShebang_iff.mp (by decide)
  obtain ⟨hspell, hall, hsource⟩ := skipTrivia_strips
  exact ⟨hmixed, ⟨hstops, (hspell mixed _ hmixed).1 hstops⟩,
    ⟨hunended, (hspell mixed _ hmixed).2 hunended⟩,
    ⟨by decide, (hall "//\n".toList).2.2 4 (by decide)⟩,
    ⟨hbracket, ((hsource _).1 hbracket).1⟩, hdoc, ((hsource _).2 hdoc).2⟩

end ClosureLint.Rust
