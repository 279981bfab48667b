import ClosureLint.Proofs.Rust.Parts
import ClosureLint.Proofs.Rust.Readable

/-! The pieces of a whole source. Each part that the lexer finds is cut into pieces that fit where
the part stands, so the source is cut into pieces in which every token begins and ends with code. -/

namespace ClosureLint.Rust

open Comment (Piece Balanced isBlankChar isWordChar mayBeginRaw OpensRaw OpensChar ascii_forall)
open Comment.Piece (spell FitAll IsCode)

/-- Where two texts meet, no word goes on. -/
def Apart (behind rest : Text) : Prop :=
  behind.head?.any isWordChar = true → rest.head?.all (!isWordPart ·) = true

theorem Apart.of_behind {c : Char} {behind rest : Text} (h : isWordChar c = false) :
    Apart (c :: behind) rest := fun hc => by
  rw [List.head?_cons, Option.any_some, h] at hc
  cases hc

theorem isWordPart_of_isWordChar {c : Char} (h : isWordChar c = true) : isWordPart c = true := by
  by_cases hc : c.toNat < 0x80
  · rw [isWordPart, if_pos hc]
    exact h
  · rw [Comment.isWordChar_high (by omega)] at h
    cases h

theorem Apart.head {behind a rest : Text} (h : Apart behind (a ++ rest))
    (ha : a.head?.any isWordChar = true) : behind.head?.all (!isWordChar ·) = true := by
  cases a with
  | nil => cases ha
  | cons c a =>
    have hc : isWordPart c = true := isWordPart_of_isWordChar ha
    cases behind with
    | nil => rfl
    | cons d behind =>
      rw [List.head?_cons, Option.all_some, Bool.not_eq_true']
      refine Bool.eq_false_iff.mpr fun hd => ?_
      have := h hd
      rw [List.cons_append, List.head?_cons, Option.all_some, hc] at this
      cases this

/-- What the pass makes of a part: it is cut into pieces, the part is a token that is readable or it
is no such token, and no word goes on behind it. -/
structure Taken (behind text rest : Text) (token : Bool) : Prop where
  cuts : Cuts behind text rest
  readable : token = true → Readable behind text rest
  apart : Apart (text.reverse ++ behind) rest

theorem Taken.ofReadable {behind text rest : Text} {token : Bool} (h : Readable behind text rest)
    (hapart : Apart (text.reverse ++ behind) rest) : Taken behind text rest token :=
  ⟨h.cuts, fun _ => h, hapart⟩

/-! ### Separators and documentation -/

theorem Balanced.getLast? {depth : Nat} {t : Text} (h : Balanced (depth + 1) t) :
    t.getLast? = some '/' := by
  generalize hd : depth + 1 = d at h
  induction h generalizing depth with
  | nil => cases hd
  | @opening e t ht ih =>
    have := @ih (e + 1) rfl
    rw [List.getLast?_cons, List.getLast?_cons, this]
    rfl
  | @closing e t ht ih =>
    cases e with
    | zero =>
      cases ht
      rfl
    | succ e =>
      have := @ih e rfl
      rw [List.getLast?_cons, List.getLast?_cons, this]
      rfl
  | @other e c t _ _ ht ih =>
    have := @ih e rfl
    rw [List.getLast?_cons, this]
    rfl

theorem CommentAt.taken {behind t : Text} {n : Nat} (h : CommentAt t n) :
    Taken behind (t.take n) (t.drop n) false := by
  cases h with
  | @line content rest hline hrest =>
    have htake : ('/' :: '/' :: (content ++ rest)).take (content.length + 2) =
        '/' :: '/' :: content := by simp
    have hdrop : ('/' :: '/' :: (content ++ rest)).drop (content.length + 2) = rest := by simp
    rw [htake, hdrop]
    refine ⟨⟨[.lineComment content], by simp [Piece.text], ⟨⟨hline, hrest⟩, trivial⟩⟩, nofun, ?_⟩
    intro _
    rcases hrest with rfl | hrest
    · rfl
    · rw [hrest]
      rfl
  | @block content rest hblock =>
    have htake : ('/' :: '*' :: (content ++ rest)).take (content.length + 2) =
        '/' :: '*' :: content := by simp
    have hdrop : ('/' :: '*' :: (content ++ rest)).drop (content.length + 2) = rest := by simp
    rw [htake, hdrop]
    refine ⟨⟨[.blockComment content], by simp [Piece.text], ⟨hblock, trivial⟩⟩, nofun, ?_⟩
    obtain ⟨u, rfl⟩ := List.getLast?_eq_some_iff.mp (Balanced.getLast? hblock)
    simpa using Apart.of_behind (by decide)

theorem isSpace_cases {c : Char} (h : isSpace c = true) :
    isBlankChar c = true ∨ isPlain c = true ∧ c ≠ 'r' ∧ isWordChar c = false := by
  by_cases hc : c.toNat < 0x80
  · revert h
    refine ascii_forall (P := fun c => isSpace c = true →
      isBlankChar c = true ∨ isPlain c = true ∧ c ≠ 'r' ∧ isWordChar c = false) ?_ hc
    decide
  · refine .inr ⟨isPlain_high (by omega), ?_, Comment.isWordChar_high (by omega)⟩
    rintro rfl
    exact hc (by decide)

theorem separator?_taken {behind t : Text} {n : Nat} (h : separator? t = some n) :
    Taken behind (t.take n) (t.drop n) false := by
  cases t with
  | nil => cases h
  | cons c t =>
    rw [separator?] at h
    split at h
    next hc =>
      cases h
      rcases isSpace_cases hc with hblank | ⟨hplain, hr, hword⟩
      · refine ⟨⟨[.blank c], rfl, hblank, trivial⟩, nofun, ?_⟩
        refine Apart.of_behind ?_
        simp only [isBlankChar, Bool.or_eq_true, beq_iff_eq] at hblank
        rcases hblank with (((rfl | rfl) | rfl) | rfl) | rfl <;> decide
      · exact ⟨(Readable.code (isCode_of_plain (.inl hplain) fun h => absurd h hr)).cuts, nofun,
          Apart.of_behind hword⟩
    next => exact (comment?_shape h).taken

/-! ### Words -/

theorem anyWord?_shape {t : Text} {n : Nat} (h : anyWord? t = some n) :
    ∃ w rest, t = w ++ rest ∧ n = w.length ∧ rest.head?.all (!isWordPart ·) = true ∧
      ((w ≠ [] ∧ ∀ c ∈ w, isPlain c = true) ∨
        ∃ v, w = 'r' :: '#' :: v ∧ v ≠ [] ∧ ∀ c ∈ v, isPlain c = true) := by
  unfold anyWord? at h
  split at h
  next t =>
    simp only [Option.bind_eq_bind, Option.bind_eq_some_iff] at h
    obtain ⟨m, hm, h⟩ := h
    split at h
    · cases h
    · cases h
      obtain ⟨w, rest, rfl, rfl, hne, hw, hrest⟩ := plainWord?_shape hm
      exact ⟨'r' :: '#' :: w, rest, rfl, rfl, hrest,
        .inr ⟨w, rfl, hne, fun c hc => isPlain_of_word (hw c hc)⟩⟩
  next =>
    obtain ⟨w, rest, rfl, rfl, hne, hw, hrest⟩ := plainWord?_shape h
    exact ⟨w, rest, rfl, rfl, hrest, .inl ⟨hne, fun c hc => isPlain_of_word (hw c hc)⟩⟩

/-- A word is readable if no `r` at its end opens a raw string. -/
theorem readable_word {behind w rest : Text}
    (hw : (w ≠ [] ∧ ∀ c ∈ w, isPlain c = true) ∨
      ∃ v, w = 'r' :: '#' :: v ∧ v ≠ [] ∧ ∀ c ∈ v, isPlain c = true)
    (hraw : ∀ u, w = u ++ ['r'] → mayBeginRaw (u.reverse ++ behind) = true → ¬ OpensRaw rest) :
    Readable behind w rest := by
  rcases hw with ⟨hne, hw⟩ | ⟨v, rfl, hne, hv⟩
  · exact Readable.plain hne hw hraw
  · cases v with
    | nil => exact absurd rfl hne
    | cons c v =>
      have hopens : ¬ OpensRaw ('#' :: (c :: v ++ rest)) := by
        rintro ⟨hashes, tail, he⟩
        cases hashes with
        | zero => cases he
        | succ n =>
          exact not_opensRaw_of_plain (hv c (by simp)) ⟨n, tail, (List.cons.inj he).2⟩
      have hr : Readable behind ['r'] ('#' :: c :: v ++ rest) :=
        Readable.code (isCode_of_plain (.inl (by decide)) fun _ _ => hopens)
      have hhash : Readable ('r' :: behind) ['#'] (c :: v ++ rest) :=
        Readable.code (isCode_of_plain (.inr rfl) fun h => absurd h (by decide))
      refine hr.append (hhash.append (Readable.plain hne hv ?_))
      intro u hu hmay
      exact hraw ('r' :: '#' :: u) (by rw [hu]; rfl) (by simpa using hmay)

theorem anyWord?_taken {behind t : Text} {n : Nat} (h : anyWord? t = some n)
    (hmis : ¬ Misread behind (t.take n) (t.drop n)) : Taken behind (t.take n) (t.drop n) true := by
  obtain ⟨w, rest, rfl, rfl, hrest, hw⟩ := anyWord?_shape h
  rw [List.take_left, List.drop_left] at hmis ⊢
  refine Taken.ofReadable (readable_word hw ?_) fun _ => hrest
  rintro u rfl hmay hraw
  exact hmis (.falseRaw hmay hraw)

/-! ### Punctuation -/

theorem punctuation_facts {c : Char} (h : c ∈ punctuation) :
    isBlankChar c = false ∧ c ≠ '"' ∧ c ≠ 'r' ∧ c ≠ '\'' ∧ isWordChar c = false := by
  refine Text.forall_of_all (P := fun c => isBlankChar c = false ∧ c ≠ '"' ∧ c ≠ 'r' ∧ c ≠ '\'' ∧
    isWordChar c = false) ?_ c h
  decide

theorem isCode_of_beginsPunct {c : Char} {behind rest : Text} (h : beginsPunct (c :: rest) = true)
    (hc : c ≠ '\'') : IsCode behind c rest ∧ isWordChar c = false := by
  have hmem : c ∈ punctuation ∧ Comment.opensComment (c :: rest) = false := by
    unfold beginsPunct at h
    split at h
    · cases h
    · cases h
    next d t hline hblock he =>
      obtain ⟨rfl, rfl⟩ := List.cons.inj he
      refine ⟨by simpa [hc] using h, ?_⟩
      rw [Comment.opensComment, Bool.or_eq_false_iff]
      constructor
      · refine Bool.eq_false_iff.mpr fun hp => ?_
        obtain ⟨u, hu⟩ := List.isPrefixOf_iff_prefix.mp hp
        exact hline u (List.cons.inj hu).1.symm (List.cons.inj hu).2.symm
      · refine Bool.eq_false_iff.mpr fun hp => ?_
        obtain ⟨u, hu⟩ := List.isPrefixOf_iff_prefix.mp hp
        exact hblock u (List.cons.inj hu).1.symm (List.cons.inj hu).2.symm
    · cases h
  obtain ⟨hblank, hquote, hr, -, hword⟩ := punctuation_facts hmem.1
  exact ⟨⟨hblank, hquote, hmem.2, fun h => absurd h hr, fun h => absurd h hc⟩, hword⟩

/-- A quote in front of a word is code, if no character literal begins with it. -/
theorem isCode_quote {behind t : Text} {n : Nat} (hliteral : literal? ('\'' :: t) = none)
    (hword : anyWord? t = some n) : IsCode behind '\'' t := by
  refine ⟨rfl, by decide, rfl, fun h => absurd h (by decide), fun _ hopens => ?_⟩
  cases hopens with
  | @plain c tail hq hb hn =>
    have hchar : characterRest .text (c :: '\'' :: tail) = some 2 := by
      unfold characterRest
      split
      next he => exact absurd (List.cons.inj he).1 hb
      next he =>
        obtain ⟨rfl, -⟩ := List.cons.inj he
        rfl
      next hno => exact absurd rfl (hno _ _)
    have hquoted : quoted? ('\'' :: c :: '\'' :: tail) = some 3 := by
      rw [quoted?, hchar]
      rfl
    rw [literal?, hquoted] at hliteral
    cases hliteral
  | @escaped tail hmem =>
    have hnone : anyWord? ('\\' :: tail) = none := rfl
    rw [hnone] at hword
    cases hword

theorem punctLexeme?_taken {behind t : Text} {lexeme : Lexeme} {n : Nat}
    (hliteral : literal? t = none) (h : punctLexeme? t = some (lexeme, n))
    (hmis : ¬ Misread behind (t.take n) (t.drop n)) : Taken behind (t.take n) (t.drop n) true := by
  unfold punctLexeme? at h
  split at h
  next t =>
    have hcases : ∃ m, anyWord? t = some m ∧ (n = 1 ∨ n = m + 1) := by
      simp only [lifetimeLexeme?, Option.bind_eq_bind, Option.bind_eq_some_iff] at h
      obtain ⟨m, hm, h⟩ := h
      refine ⟨m, hm, ?_⟩
      have hnamed : lifetimeLexeme?.named t m = some (lexeme, n) → n = 1 ∨ n = m + 1 := by
        intro h
        unfold lifetimeLexeme?.named at h
        split at h
        · cases h
          exact .inl rfl
        · cases h
          exact .inr rfl
      split at h
      · cases h
      · split at h
        · exact hnamed h
        · cases h
      · exact hnamed h
    obtain ⟨m, hm, hn⟩ := hcases
    have hquote : ∀ rest, t = rest → Readable behind ['\''] rest := fun rest he =>
      Readable.code (he ▸ isCode_quote hliteral hm)
    rcases hn with rfl | rfl
    · exact Taken.ofReadable (hquote t rfl) (Apart.of_behind (by decide))
    · obtain ⟨w, rest, rfl, rfl, hrest, hw⟩ := anyWord?_shape hm
      rw [List.take_succ_cons, List.drop_succ_cons, List.take_left, List.drop_left] at hmis ⊢
      refine Taken.ofReadable ((hquote (w ++ rest) rfl).append (readable_word hw ?_)) fun _ => hrest
      rintro u rfl hmay hraw
      exact hmis (.falseRaw (u := '\'' :: u) (by simpa using hmay) hraw)
  next c t hc =>
    split at h
    next hpunct =>
      cases h
      obtain ⟨hcode, hword⟩ := @isCode_of_beginsPunct c behind t hpunct fun he => hc he
      exact Taken.ofReadable (Readable.code hcode) (Apart.of_behind hword)
    next => cases h
  next => cases h

/-! ### Literals and all tokens -/

theorem Quoted.getLast {q : Text} (h : Quoted q) : ∃ u c, q = u ++ [c] ∧ isWordChar c = false := by
  cases h with
  | @string start content => exact ⟨start ++ '"' :: content, '"', by simp, rfl⟩
  | @raw start content hashes =>
    cases hashes with
    | zero => exact ⟨start ++ '"' :: content, '"', by simp, rfl⟩
    | succ n =>
      refine ⟨start ++ (List.replicate (n + 1) '#' ++ '"' :: (content ++ '"' :: List.replicate n '#')),
        '#', ?_, rfl⟩
      rw [List.replicate_succ']
      simp
  | @char start c => exact ⟨start ++ ['\'', c], '\'', by simp, rfl⟩
  | @escaped start tail c => exact ⟨start ++ '\'' :: '\\' :: c :: tail, '\'', by simp, rfl⟩

theorem number_taken {digits? : Measure} {behind t : Text} {n : Nat}
    (hdigits : ∀ m, digits? t = some m → Begins isNumberPart t m ∧ m ≠ 0)
    (h : suffixed? digits? t = some n) (hmis : ¬ Misread behind (t.take n) (t.drop n)) :
    Taken behind (t.take n) (t.drop n) true := by
  obtain ⟨front, w, rest, rfl, rfl, hne, hfront, hw, hrest⟩ := suffixed?_shape hdigits h
  rw [← List.append_assoc, List.take_left, List.drop_left] at hmis ⊢
  refine Taken.ofReadable (Readable.plain (by simp [hne]) ?_ ?_) fun _ => hrest
  · intro c hc
    rcases List.mem_append.mp hc with hc | hc
    · exact isPlain_of_number (hfront c hc)
    · exact isPlain_of_word (hw c hc)
  · intro u hu hmay hraw
    rw [hu] at hmis
    exact hmis (.falseRaw hmay hraw)

theorem literal?_taken {behind t : Text} {kind : Literal} {n : Nat} (hapart : Apart behind t)
    (h : literal? t = some (kind, n)) (hmis : ¬ Misread behind (t.take n) (t.drop n)) :
    Taken behind (t.take n) (t.drop n) true := by
  unfold literal? at h
  split at h
  next m hm =>
    obtain ⟨q, u, rfl, rfl, hq⟩ := quoted?_shape hm
    rw [List.drop_left] at h
    obtain ⟨w, rest, rfl, hwidth, hw, hrest⟩ := wordWidth_shape u
    cases h
    have htext : q ++ (w ++ rest) = (q ++ w) ++ rest := (List.append_assoc q w rest).symm
    rw [hwidth, ← List.length_append, htext, List.take_left, List.drop_left] at hmis ⊢
    have hreads := readable_quoted hq hapart.head hmis
    refine Taken.ofReadable (hreads.append_rest
      (readable_suffix (fun c hc => isPlain_of_word (hw c hc)) hmis)) ?_
    by_cases hne : w = []
    · obtain ⟨v, c, rfl, hc⟩ := hq.getLast
      rw [hne]
      simpa using Apart.of_behind hc
    · exact fun _ => hrest hne
  next =>
    split at h
    next m hm =>
      cases h
      exact number_taken (fun m => floatDigits?_shape) hm hmis
    next =>
      obtain ⟨m, hm, he⟩ := Option.map_eq_some_iff.mp h
      cases he
      exact number_taken (fun m => integer?_shape) hm hmis

/-- The mark of error recovery is a comment in parentheses. -/
theorem errorMark_taken (behind rest : Text) : Taken behind errorMark rest true := by
  have hcode : ∀ (behind rest : Text) (c : Char), c ∈ ['(', ')'] → IsCode behind c rest := by
    intro behind rest c hc
    refine isCode_of_plain (.inl ?_) ?_
    · exact Text.forall_of_all (P := fun c => isPlain c = true) (by decide) c hc
    · rintro rfl
      exact absurd hc (by decide)
  have hblock : Balanced 1 ['E', 'R', 'R', 'O', 'R', '*', '/'] :=
    .other rfl rfl (.other rfl rfl (.other rfl rfl (.other rfl rfl (.other rfl rfl (.closing .nil)))))
  refine Taken.ofReadable ⟨[.code '(', .blockComment ['E', 'R', 'R', 'O', 'R', '*', '/'], .code ')'],
    rfl, ⟨hcode _ _ _ (by decide), hblock, hcode _ _ _ (by decide), trivial⟩, ⟨_, rfl, rfl⟩, _, rfl,
    rfl⟩ ?_
  exact Apart.of_behind (by decide)

theorem leaf?_taken {behind t : Text} {lexeme : Lexeme} {n : Nat} (hapart : Apart behind t)
    (h : leaf? t = some (lexeme, n)) (hmis : ¬ Misread behind (t.take n) (t.drop n)) :
    Taken behind (t.take n) (t.drop n) true := by
  unfold leaf? at h
  split at h
  next kind m hliteral =>
    cases h
    exact literal?_taken hapart hliteral hmis
  next hliteral =>
    split at h
    next found hpunct =>
      cases h
      exact punctLexeme?_taken hliteral hpunct hmis
    next =>
      split at h
      next m hword =>
        cases h
        unfold wordLexeme? at hword
        split at hword
        · cases hword
        · exact anyWord?_taken hword hmis
      next =>
        split at h
        next hmark =>
          cases h
          obtain ⟨rest, rfl⟩ := List.isPrefixOf_iff_prefix.mp hmark
          rw [List.take_left, List.drop_left]
          exact errorMark_taken behind rest
        next => cases h

theorem delimiter_taken {behind t : Text} {d : Delimiter}
    (h : opens? t = some d ∨ closes? t = some d) : Taken behind (t.take 1) (t.drop 1) true := by
  have hchar : ∃ c rest, t = c :: rest ∧ c ∈ ['(', '[', '\x7b', ')', ']', '\x7d'] := by
    rcases h with h | h
    · unfold opens? at h
      split at h
      · exact ⟨_, _, rfl, by decide⟩
      · exact ⟨_, _, rfl, by decide⟩
      · exact ⟨_, _, rfl, by decide⟩
      · cases h
    · unfold closes? at h
      split at h
      · exact ⟨_, _, rfl, by decide⟩
      · exact ⟨_, _, rfl, by decide⟩
      · exact ⟨_, _, rfl, by decide⟩
      · cases h
  obtain ⟨c, rest, rfl, hc⟩ := hchar
  have hfacts : isPlain c = true ∧ c ≠ 'r' ∧ isWordChar c = false := by
    refine Text.forall_of_all
      (P := fun c => isPlain c = true ∧ c ≠ 'r' ∧ isWordChar c = false) ?_ c hc
    decide
  exact Taken.ofReadable (Readable.code (isCode_of_plain (.inl hfacts.1) fun h => absurd h hfacts.2.1))
    (Apart.of_behind hfacts.2.2)

/-- Whether a part is a token other than documentation. -/
def Part.isToken (p : Part) : Bool :=
  match p.lexeme? with
  | none => false
  | some (.doc _) => false
  | some _ => true

theorem Part.isToken_of_isDoc {p : Part} {lexeme : Lexeme} (h : p.lexeme? = some lexeme)
    (hdoc : lexeme.isDoc = false) : p.isToken = true := by
  unfold Part.isToken
  rw [h]
  cases lexeme with
  | doc => cases hdoc
  | _ => rfl

/-- The part at the front of a text is taken, if it is not misread. -/
theorem partAt?_taken {behind t : Text} {lexeme? : Option Lexeme} {n : Nat}
    (hapart : Apart behind t) (h : partAt? t = some (lexeme?, n))
    (hmis : ¬ Misread behind (t.take n) (t.drop n)) :
    Taken behind (t.take n) (t.drop n) (Part.isToken ⟨t.take n, lexeme?⟩) := by
  have hreadable : ∀ {b : Bool}, Taken behind (t.take n) (t.drop n) true →
      Taken behind (t.take n) (t.drop n) b := fun h => .ofReadable (h.readable rfl) h.apart
  unfold partAt? at h
  split at h
  next hsep =>
    cases h
    exact separator?_taken hsep
  next =>
    split at h
    next hdoc =>
      cases h
      exact (doc?_shape hdoc).taken
    next =>
      split at h
      next d hopens =>
        cases h
        exact hreadable (delimiter_taken (.inl hopens))
      next d _ hcloses =>
        cases h
        exact hreadable (delimiter_taken (.inr hcloses))
      next =>
        obtain ⟨⟨lexeme, m⟩, hleaf, he⟩ := Option.map_eq_some_iff.mp h
        cases he
        exact hreadable (leaf?_taken hapart hleaf hmis)

end ClosureLint.Rust
