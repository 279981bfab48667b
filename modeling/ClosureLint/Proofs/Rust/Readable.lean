import ClosureLint.Proofs.Comment.CodeLines
import ClosureLint.Proofs.Rust.CommentShape
import ClosureLint.Proofs.Rust.LiteralShape

/-! What the comment pass makes of the parts that the lexer finds. Separators and documentation are
cut into blanks, comments and other characters; a token is cut into pieces of which the first and
the last one are code, unless it is of one of a few forms that the pass does not know. -/

namespace ClosureLint

namespace Comment.Piece

/-- Whether a piece is neither blank nor a comment. -/
def isSolid : Piece → Bool
  | .blank _ | .lineComment _ | .blockComment _ => false
  | _ => true

theorem fitAll_append {rest behind : Text} {ps qs : List Piece} :
    FitAll rest behind (ps ++ qs) ↔ FitAll (spell qs ++ rest) behind ps ∧
      FitAll rest ((spell ps).reverse ++ behind) qs := by
  induction ps generalizing behind with
  | nil => simp [FitAll]
  | cons p ps ih => simp [FitAll, ih, and_assoc]

theorem solid_ends {p : Piece} {behind rest : Text} (h : p.isSolid = true)
    (hp : p.Fits behind rest) :
    (∃ c v, p.text = c :: v ∧ isBlankChar c = false) ∧
      ∃ u c, p.text = u ++ [c] ∧ isBlankChar c = false := by
  cases p with
  | blank c => cases h
  | lineComment content => cases h
  | blockComment content => cases h
  | string content => exact ⟨⟨_, _, rfl, rfl⟩, '"' :: content, '"', rfl, rfl⟩
  | rawString hashes content =>
    refine ⟨⟨_, _, rfl, rfl⟩, ?_⟩
    cases hashes with
    | zero => exact ⟨'r' :: '"' :: content, '"', rfl, rfl⟩
    | succ n =>
      refine ⟨'r' :: (List.replicate (n + 1) '#' ++ '"' :: (content ++ '"' :: List.replicate n '#')),
        '#', ?_, rfl⟩
      rw [text, List.replicate_succ' (n := n)]
      simp
  | char c => exact ⟨⟨_, _, rfl, rfl⟩, ['\'', c], '\'', rfl, rfl⟩
  | escapedChar c tail => exact ⟨⟨_, _, rfl, rfl⟩, '\'' :: '\\' :: c :: tail, '\'', rfl, rfl⟩
  | code c => exact ⟨⟨c, [], rfl, hp.not_blank⟩, [], c, rfl, hp.not_blank⟩

end Comment.Piece

namespace Rust

open Comment (Piece isBlankChar isWordChar mayBeginRaw OpensRaw StringContent ascii_forall)
open Comment.Piece (spell FitAll IsCode)

/-! ### Texts of solid pieces -/

def Cuts (behind text rest : Text) : Prop := ∃ ps, spell ps = text ∧ FitAll rest behind ps

/-- A text can be cut into pieces, the first and the last of which are solid. -/
def Readable (behind text rest : Text) : Prop :=
  ∃ ps, spell ps = text ∧ FitAll rest behind ps ∧
    (∃ p ∈ ps.head?, p.isSolid = true) ∧ ∃ p ∈ ps.getLast?, p.isSolid = true

theorem Readable.cuts {behind text rest : Text} (h : Readable behind text rest) :
    Cuts behind text rest := by
  obtain ⟨ps, hspell, hfit, -⟩ := h
  exact ⟨ps, hspell, hfit⟩

theorem Readable.append {behind a b rest : Text} (ha : Readable behind a (b ++ rest))
    (hb : Readable (a.reverse ++ behind) b rest) : Readable behind (a ++ b) rest := by
  obtain ⟨ps, rfl, hps, ⟨p, hp, hsolid⟩, -⟩ := ha
  obtain ⟨qs, rfl, hqs, -, q, hq, hsolid'⟩ := hb
  refine ⟨ps ++ qs, by simp, Piece.fitAll_append.mpr ⟨hps, hqs⟩, ⟨p, ?_, hsolid⟩, q, ?_, hsolid'⟩
  · rw [List.head?_append, Option.mem_def.mp hp]
    rfl
  · rw [List.getLast?_append, Option.mem_def.mp hq]
    rfl

theorem Readable.append_rest {behind a b rest : Text} (ha : Readable behind a (b ++ rest))
    (hb : b = [] ∨ Readable (a.reverse ++ behind) b rest) : Readable behind (a ++ b) rest := by
  rcases hb with rfl | hb
  · simpa using ha
  · exact ha.append hb

theorem Readable.piece {p : Piece} {behind rest : Text} (hp : p.Fits behind rest)
    (h : p.isSolid = true) : Readable behind p.text rest :=
  ⟨[p], List.append_nil _, ⟨by simpa using hp, trivial⟩, ⟨p, rfl, h⟩, p, rfl, h⟩

theorem Readable.code {c : Char} {behind rest : Text} (h : IsCode behind c rest) :
    Readable behind [c] rest :=
  Readable.piece (p := .code c) h rfl

/-! ### Plain characters -/

/-- A character that opens nothing by itself, unless it is an `r`, and that no hashes open. -/
def isPlain (c : Char) : Bool :=
  !isBlankChar c && c != '"' && c != '/' && c != '\'' && c != '#'

theorem isPlain_high {c : Char} (h : 0x80 ≤ c.toNat) : isPlain c = true := by
  have hne : ∀ d : Char, d.toNat < 0x80 → c ≠ d := fun d hd he => by rw [he] at h; omega
  simp [isPlain, Comment.isBlankChar_high h, hne '"' (by decide), hne '/' (by decide),
    hne '\'' (by decide), hne '#' (by decide)]

theorem isPlain_of_word {c : Char} (h : isWordStart c = true ∨ isWordPart c = true) :
    isPlain c = true := by
  by_cases hc : c.toNat < 0x80
  · revert h
    refine ascii_forall
      (P := fun c => isWordStart c = true ∨ isWordPart c = true → isPlain c = true) ?_ hc
    decide
  · exact isPlain_high (by omega)

theorem isNumberPart_ascii {c : Char} (h : isNumberPart c = true) : c.toNat < 0x80 := by
  simp only [isNumberPart, Bool.or_eq_true, beq_iff_eq] at h
  rcases h with (((((h | rfl) | rfl) | rfl) | rfl) | rfl) | rfl
  · exact isHex_ascii h
  all_goals decide

theorem isPlain_of_number {c : Char} (h : isNumberPart c = true) : isPlain c = true := by
  have hc := isNumberPart_ascii h
  revert h
  refine ascii_forall (P := fun c => isNumberPart c = true → isPlain c = true) ?_ hc
  decide

theorem not_opensRaw_of_plain {c : Char} {t : Text} (h : isPlain c = true) :
    ¬ OpensRaw (c :: t) := by
  rintro ⟨hashes, tail, he⟩
  cases hashes with
  | zero =>
    obtain rfl : c = '"' := (List.cons.inj he).1
    cases h
  | succ n =>
    obtain rfl : c = '#' := (List.cons.inj he).1
    cases h

/-- A character is code where it opens no raw string, if it is plain or a hash. -/
theorem isCode_of_plain {c : Char} {behind rest : Text} (h : isPlain c = true ∨ c = '#')
    (hraw : c = 'r' → mayBeginRaw behind = true → ¬ OpensRaw rest) : IsCode behind c rest := by
  have hne : isBlankChar c = false ∧ c ≠ '"' ∧ c ≠ '/' ∧ c ≠ '\'' := by
    rcases h with h | rfl
    · simp only [isPlain, Bool.and_eq_true, Bool.not_eq_true', bne_iff_ne, ne_eq] at h
      exact ⟨h.1.1.1.1, h.1.1.1.2, h.1.1.2, h.1.2⟩
    · decide
  refine ⟨hne.1, hne.2.1, ?_, hraw, fun hc => absurd hc hne.2.2.2⟩
  simp [Comment.opensComment, List.isPrefixOf, Ne.symm hne.2.2.1]

/-- Plain characters are code, if an `r` at their end opens no raw string. -/
theorem Readable.plain {behind w rest : Text} (hne : w ≠ []) (hw : ∀ c ∈ w, isPlain c = true)
    (hraw : ∀ u, w = u ++ ['r'] → mayBeginRaw (u.reverse ++ behind) = true → ¬ OpensRaw rest) :
    Readable behind w rest := by
  induction w generalizing behind with
  | nil => exact absurd rfl hne
  | cons c w ih =>
    cases w with
    | nil =>
      refine Readable.code (isCode_of_plain (.inl (hw c (by simp))) ?_)
      rintro rfl
      exact hraw [] rfl
    | cons d w =>
      have hcode : Readable behind [c] (d :: w ++ rest) :=
        Readable.code (isCode_of_plain (.inl (hw c (by simp)))
          fun _ _ => not_opensRaw_of_plain (hw d (by simp)))
      refine hcode.append (ih (by simp) (fun x hx => hw x (List.mem_cons_of_mem c hx)) ?_)
      intro u hu hmay
      exact hraw (c :: u) (by rw [hu]; rfl) (by simpa using hmay)

/-! ### Literals -/

/-- The forms of tokens that the pass takes for something else: a raw C string that would not be a
string with the same content, an unescaped quote or newline as a character, an escape that is too
long, and a token with an `r` at its end that seems to open a raw string. -/
inductive Misread (behind : Text) : (text rest : Text) → Prop
  | rawC {content w rest : Text} {hashes : Nat} : ¬ StringContent content → Misread behind
      ('c' :: 'r' :: (List.replicate hashes '#' ++
        '"' :: (content ++ '"' :: List.replicate hashes '#')) ++ w) rest
  | bareChar {start u rest : Text} {c : Char} : start ∈ [[], ['b']] → c = '\'' ∨ c = '\n' →
    Misread behind (start ++ '\'' :: c :: '\'' :: u) rest
  | longEscape {start u rest : Text} {c : Char} : start ∈ [[], ['b']] →
    '\'' ∉ u.take Comment.escapeReach → Misread behind (start ++ '\'' :: '\\' :: c :: u) rest
  | falseRaw {u rest : Text} : mayBeginRaw (u.reverse ++ behind) = true → OpensRaw rest →
    Misread behind (u ++ ['r']) rest

/-- The end of a token behind a first part of it is cut into plain characters. -/
theorem readable_suffix {behind a w rest : Text} (hw : ∀ c ∈ w, isPlain c = true)
    (hmis : ¬ Misread behind (a ++ w) rest) : w = [] ∨ Readable (a.reverse ++ behind) w rest := by
  by_cases hne : w = []
  · exact .inl hne
  refine .inr (Readable.plain hne hw ?_)
  rintro u rfl hmay hraw
  rw [← List.append_assoc] at hmis
  exact hmis (.falseRaw (by simpa using hmay) hraw)

theorem readable_hashes (behind rest : Text) (n : Nat) :
    List.replicate n '#' = [] ∨ Readable behind (List.replicate n '#') rest := by
  induction n generalizing behind with
  | zero => exact .inl rfl
  | succ n ih =>
    rw [List.replicate_succ]
    exact .inr ((Readable.code (isCode_of_plain (.inr rfl) (fun h => absurd h (by decide)))).append_rest
      (a := ['#']) (ih _))

theorem Readable.behind_hashes {text rest : Text} (h : ∀ behind, Readable behind text rest) (n : Nat)
    (behind : Text) : Readable behind (List.replicate n '#' ++ text) rest := by
  induction n generalizing behind with
  | zero => exact h behind
  | succ n ih =>
    exact (Readable.code (isCode_of_plain (.inr rfl) (fun h => absurd h (by decide)))).append
      (a := ['#']) (ih _)

theorem escapeMark_ascii {c : Char} (h : c ∈ escapeMarks) : c.toNat < 0x80 ∧ c ≠ '\n' :=
  Text.forall_of_all (P := fun c => c.toNat < 0x80 ∧ c ≠ '\n') (by decide) c h

theorem byteLength_ascii {t : Text} (h : ∀ c ∈ t, c.toNat < 0x80) : t.byteLength = t.length := by
  induction t with
  | nil => rfl
  | cons c t ih =>
    have hc : c.utf8Size = 1 := by
      rw [← String.length_utf8EncodeChar, Text.encode_ascii (h c (by simp))]
      rfl
    rw [Text.byteLength_cons, hc, ih fun x hx => h x (List.mem_cons_of_mem c hx), List.length_cons,
      Nat.add_comm]

theorem isCode_start {c : Char} (behind rest : Text) (hc : c ∈ ['b', 'c']) :
    IsCode behind c rest := by
  refine isCode_of_plain (.inl ?_) ?_
  · exact Text.forall_of_all (P := fun c => isPlain c = true) (by decide) c hc
  · rintro rfl
    exact absurd hc (by decide)

theorem Readable.behind_start {start text rest : Text} (h : ∀ behind, Readable behind text rest)
    (hstart : start ∈ [[], ['b'], ['c']]) (behind : Text) :
    Readable behind (start ++ text) rest := by
  simp only [List.mem_cons, List.not_mem_nil, or_false] at hstart
  rcases hstart with rfl | rfl | rfl
  · exact h behind
  · exact (Readable.code (isCode_start _ _ (by decide))).append (a := ['b']) (h _)
  · exact (Readable.code (isCode_start _ _ (by decide))).append (a := ['c']) (h _)

theorem mayBeginRaw_of_head {behind : Text} (h : behind.head?.all (!isWordChar ·) = true) :
    mayBeginRaw behind = true := by
  unfold mayBeginRaw
  split
  · rfl
  · cases h
  · exact h

/-- The pass takes the `r` of a raw C string for a part of a word, and the rest for a plain string.
-/
theorem readable_rawC {content rest : Text} (h : StringContent content) (hashes : Nat)
    (behind : Text) : Readable behind (['c', 'r'] ++ (List.replicate hashes '#' ++
      '"' :: (content ++ '"' :: List.replicate hashes '#'))) rest := by
  have hquoted : ∀ behind, Readable behind
      ('"' :: (content ++ ['"']) ++ List.replicate hashes '#') rest := fun behind =>
    (Readable.piece (p := .string content) h rfl).append_rest (readable_hashes _ _ _)
  have hletter : ∀ rest, IsCode ('c' :: behind) 'r' rest := fun rest =>
    isCode_of_plain (.inl (by decide)) fun _ h => absurd h (by
      rw [mayBeginRaw]
      · decide
      · decide)
  have hall := (Readable.code (isCode_start behind _ (by decide))).append (a := ['c'])
    ((Readable.code (hletter _)).append (a := ['r']) (.behind_hashes hquoted hashes _))
  simpa using hall

/-- The pass looks far enough ahead for an escape, unless it is misread. -/
theorem length_of_escape {behind start tail w rest : Text} {c : Char} (hstart : start ∈ [[], ['b']])
    (hquote : '\'' ∉ tail)
    (hmis : ¬ Misread behind (start ++ '\'' :: '\\' :: c :: (tail ++ ['\'']) ++ w) rest) :
    tail.length ≤ 9 := by
  refine Nat.le_of_not_lt fun hlt => hmis ?_
  have hlong : '\'' ∉ (tail ++ '\'' :: w).take Comment.escapeReach := by
    rw [List.take_append_of_le_length (by rw [Comment.escapeReach]; omega)]
    exact fun h => hquote (List.mem_of_mem_take h)
  have := @Misread.longEscape behind _ _ rest c hstart hlong
  simpa using this

theorem readable_quoted {behind q w rest : Text} (hq : Quoted q)
    (hbehind : q.head?.any isWordChar = true → behind.head?.all (!isWordChar ·) = true)
    (hmis : ¬ Misread behind (q ++ w) rest) : Readable behind q (w ++ rest) := by
  have hletter : ∀ {start : Text}, start ∈ [[], ['b']] → start ∈ [[], ['b'], ['c']] :=
    fun h => List.mem_append_left [['c']] h
  cases hq with
  | @string start content hstart hcontent =>
    exact .behind_start (fun _ => .piece (p := .string content) hcontent rfl) hstart behind
  | @raw start content hashes hstart hcontent =>
    have hbody : ∀ behind, mayBeginRaw behind = true → Readable behind
        ('r' :: (List.replicate hashes '#' ++ '"' :: (content ++ '"' :: List.replicate hashes '#')))
        (w ++ rest) := fun behind h =>
      Readable.piece (p := .rawString hashes content) ⟨h, hcontent⟩ rfl
    simp only [List.mem_cons, List.not_mem_nil, or_false] at hstart
    rcases hstart with rfl | rfl | rfl
    · exact hbody behind (mayBeginRaw_of_head (hbehind rfl))
    · exact (Readable.code (isCode_start _ _ (by decide))).append (a := ['b'])
        (hbody _ (hbehind rfl))
    · exact readable_rawC (Classical.not_not.mp fun h => hmis (.rawC h)) hashes behind
  | @char start c hstart hc =>
    have hne : c ≠ '\'' ∧ c ≠ '\n' := by
      refine not_or.mp fun h => hmis ?_
      have := @Misread.bareChar behind _ w rest c hstart h
      simpa using this
    exact .behind_start (fun _ => .piece (p := .char c) ⟨hne.1, hc, hne.2⟩ rfl) (hletter hstart)
      behind
  | @escaped start tail c hstart hc htail =>
    obtain ⟨hascii, hn⟩ := escapeMark_ascii hc
    have hquote : '\'' ∉ tail := fun h => absurd (htail _ h) (by decide)
    have hline : '\n' ∉ tail := fun h => absurd (htail _ h) (by decide)
    have hlength : tail.byteLength ≤ 9 := by
      rw [byteLength_ascii fun x hx => isEscapePart_ascii (htail x hx)]
      exact length_of_escape hstart hquote hmis
    exact .behind_start (fun _ => .piece (p := .escapedChar c tail)
      ⟨hascii, hn, hlength, hquote, hline⟩ rfl) (hletter hstart) behind

end Rust

end ClosureLint
