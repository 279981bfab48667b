import ClosureLint.Proofs.Comment.Literal

/-! The pass over a list of pieces. It stands between two pieces outside block comments and
literals, whatever the pieces are, so it takes each piece for what it is, and marks the lines of all
characters that are neither blank nor in a comment. -/

namespace ClosureLint.Comment

open Text (utf8Back)

/-- The pass stands between two characters, outside block comments and literals; if it is inside a
line comment, the line ends there. -/
structure Stands (s : State) (behind rest : Text) : Prop where
  owed : s.owed = 0
  mode : s.mode = .code ∨ s.mode = .lineComment ∧ (rest = [] ∨ rest.head? = some '\n')
  behind : s.behind = utf8Back behind

theorem Stands.start (t : Text) : Stands .start [] t := ⟨rfl, .inl rfl, rfl⟩

theorem Stands.beyond {s : State} {behind rest : Text} {m : Mode} (h : s.behind = utf8Back behind)
    (t : Text) (hm : m = .code ∨ m = .lineComment ∧ (rest = [] ∨ rest.head? = some '\n')) :
    Stands (s.beyond t.utf8 m) (t.reverse ++ behind) rest :=
  ⟨rfl, hm, by rw [Text.utf8Back_append, ← h]; rfl⟩

theorem byteLength_hashes (n : Nat) : Text.byteLength (List.replicate n '#') = n := by
  rw [← Text.length_utf8, utf8_hashes, List.length_replicate]

section Code

variable {s : State} {rest behind : Text}

theorem Inks.blank {c : Char} (h : s.owed = 0) (hm : s.mode = .code) (hc : isBlankChar c = true) :
    Inks s [c] rest .code := by
  rw [← hm]
  refine Inks.char h (by rw [hm]; rfl) fun hascii hn => ?_
  have hne : ∀ d : Char, d.toNat < 0x80 → isBlankChar d = false →
      UInt8.ofNat c.toNat ≠ UInt8.ofNat d.toNat := fun d hd hb =>
    byte_ne hascii hd fun he => by rw [he, hb] at hc; cases hc
  rw [hm, step_code_plain (byte_ne hascii (d := '\n') (by decide) hn)
    (hne '/' (by decide) rfl) (hne 'r' (by decide) rfl) (hne '"' (by decide) rfl)
    (hne '\'' (by decide) rfl), isBlank_byte hascii]

theorem Inks.code {c : Char} (h : s.owed = 0) (hm : s.mode = .code)
    (hb : s.behind = utf8Back behind) (hc : Piece.IsCode behind c rest) :
    Inks s [c] rest .code := by
  rw [← hm]
  refine Inks.char h (by rw [hm]; rfl) fun hascii hn => ?_
  have hnl : UInt8.ofNat c.toNat ≠ 0x0a := byte_ne hascii (d := '\n') (by decide) hn
  have hquote : UInt8.ofNat c.toNat ≠ 0x22 := byte_ne hascii (d := '"') (by decide) hc.not_string
  obtain ⟨hline, hblock⟩ := Bool.or_eq_false_iff.mp hc.not_comment
  have hline : occurs CommentStyle.rust.line (UInt8.ofNat c.toNat :: rest.utf8) = false := by
    rw [← Text.utf8_cons_ascii hascii, occurs_utf8 (by decide)]
    exact Bool.and_eq_false_imp.mpr fun _ => hline
  have hblock : occurs CommentStyle.rust.blockOpen (UInt8.ofNat c.toNat :: rest.utf8) = false := by
    rw [← Text.utf8_cons_ascii hascii, occurs_utf8 (by decide)]
    exact Bool.and_eq_false_imp.mpr fun _ => hblock
  have hraw : rawHashes? s.behind (UInt8.ofNat c.toNat) rest.utf8 = none := by
    by_cases hr : c = 'r'
    · subst hr
      obtain ⟨n, u, rfl, hu⟩ := exists_hashes rest
      have := @rawHashes?_utf8 s.behind n u hu
      rw [hb, mayOpenRaw_utf8Back, if_neg] at this
      · rw [hb]
        exact this
      · rintro ⟨hmay, hq⟩
        obtain ⟨tail, rfl⟩ := List.head?_eq_some_iff.mp hq
        exact hc.not_raw rfl hmay ⟨n, tail, rfl⟩
    · have : UInt8.ofNat c.toNat ≠ 0x72 := byte_ne hascii (d := 'r') (by decide) hr
      simp [rawHashes?, this]
  have hchar : charLiteralWidth? (UInt8.ofNat c.toNat) rest.utf8 = none := by
    by_cases hq : c = '\''
    · subst hq
      exact charLiteralWidth?_eq_none (hc.not_char rfl)
    · have : UInt8.ofNat c.toNat ≠ 0x27 := byte_ne hascii (d := '\'') (by decide) hq
      simp [charLiteralWidth?, this]
  rw [hm, step, if_neg (by simpa using hnl)]
  simp [stepCode, hline, hblock, hraw, hchar, hquote, isBlank_byte hascii]

theorem Inks.string {content : Text} (h : s.owed = 0) (hm : s.mode = .code)
    (ht : StringContent content) : Inks s (Piece.string content).text rest .code := by
  have hopen : Inks s ['"'] (content ++ ['"'] ++ rest) .quoted := by
    refine Inks.turn h (by decide) rfl (by decide) ?_
    rw [hm]
    rfl
  have hcontent : Inks (s.beyond (Text.utf8 ['"']) .quoted) content (['"'] ++ rest) .quoted :=
    Inks.stringContent ht rfl rfl
  have hclose : Inks ((s.beyond (Text.utf8 ['"']) .quoted).beyond content.utf8 .quoted) ['"'] rest
      .code :=
    Inks.turn rfl (by decide) rfl (by decide) rfl
  exact hopen.append (hcontent.append hclose)

theorem Inks.rawString {hashes : Nat} {content : Text} (h : s.owed = 0) (hm : s.mode = .code)
    (hb : s.behind = utf8Back behind) (hmay : mayBeginRaw behind = true)
    (ht : ¬ '"' :: List.replicate hashes '#' <:+: content) :
    Inks s (Piece.rawString hashes content).text rest .code := by
  have hsplit : (Piece.rawString hashes content).text =
      ('r' :: (List.replicate hashes '#' ++ ['"'])) ++
        (content ++ '"' :: List.replicate hashes '#') := by
    simp [Piece.text]
  have hopen : Inks s ('r' :: (List.replicate hashes '#' ++ ['"']))
      (content ++ '"' :: List.replicate hashes '#' ++ rest) (.rawQuoted hashes) := by
    refine Inks.turn h (by decide) rfl (by simp) ?_
    have hraw : rawHashes? s.behind 0x72 (Text.utf8 (List.replicate hashes '#' ++ ['"'] ++
        (content ++ '"' :: List.replicate hashes '#' ++ rest))) = some hashes := by
      rw [List.append_assoc, rawHashes?_utf8 (by simp), hb, mayOpenRaw_utf8Back,
        if_pos ⟨hmay, rfl⟩]
    rw [hm, Text.byteLength_append, byteLength_hashes]
    exact stepCode_raw hraw
  have hcontent : Inks
      (s.beyond (Text.utf8 ('r' :: (List.replicate hashes '#' ++ ['"']))) (.rawQuoted hashes))
      content ('"' :: (List.replicate hashes '#' ++ rest)) (.rawQuoted hashes) :=
    Inks.rawContent ht rfl rfl
  have hclose : Inks ((s.beyond (Text.utf8 ('r' :: (List.replicate hashes '#' ++ ['"'])))
      (.rawQuoted hashes)).beyond content.utf8 (.rawQuoted hashes))
      ('"' :: List.replicate hashes '#') rest .code := by
    refine Inks.turn rfl (by decide) rfl (by simp) ?_
    rw [Text.utf8_append, utf8_hashes, byteLength_hashes, Nat.add_comm]
    exact stepRaw_closing hashes rest.utf8
  rw [hsplit]
  exact hopen.append (hcontent.append hclose)

theorem Inks.charLiteral {c : Char} (h : s.owed = 0) (hm : s.mode = .code) (hq : c ≠ '\'')
    (hb : c ≠ '\\') (hn : c ≠ '\n') : Inks s (Piece.char c).text rest .code := by
  refine Inks.turn h (by decide) rfl (by simp [Ne.symm hn]) ?_
  have hlit : charLiteralWidth? 0x27 (Text.utf8 ([c, '\''] ++ rest)) = some (c.utf8Size + 2) := by
    rw [List.cons_append, charLiteralWidth?_plain hq hb hn]
    rfl
  rw [hm]
  exact @stepCode_char s.behind _ _ hlit

theorem Inks.escapedChar {c : Char} {tail : Text} (h : s.owed = 0) (hm : s.mode = .code)
    (hc : c.toNat < 0x80) (hn : c ≠ '\n') (hlen : tail.byteLength ≤ 9) (hq : '\'' ∉ tail)
    (hnl : '\n' ∉ tail) : Inks s (Piece.escapedChar c tail).text rest .code := by
  refine Inks.turn h (by decide) rfl (by simp [Ne.symm hn, hnl]) ?_
  have hbytes : (0x27 : UInt8) ∉ tail.utf8 := fun hmem =>
    hq ((Text.mem_utf8 (c := '\'') (by decide) tail).mp hmem)
  have hfind : ((Text.utf8 (tail ++ '\'' :: rest)).take escapeReach).findIdx? (· == 0x27) =
      some tail.byteLength := by
    have htake : (Text.utf8 (tail ++ '\'' :: rest)).take escapeReach =
        tail.utf8 ++ 0x27 :: rest.utf8.take (9 - tail.byteLength) := by
      rw [Text.utf8_append, Text.utf8_cons_ascii (by decide), List.take_append, Text.length_utf8,
        List.take_of_length_le (by rw [Text.length_utf8]; exact Nat.le_succ_of_le hlen),
        show escapeReach - tail.byteLength = 9 - tail.byteLength + 1 by
          rw [escapeReach]; omega]
      rfl
    have hnone : tail.utf8.findIdx? (· == 0x27) = none :=
      List.findIdx?_eq_none_iff.mpr fun y hy => beq_false_of_ne fun he => hbytes (he ▸ hy)
    rw [htake, List.findIdx?_append, hnone]
    simp [List.findIdx?_cons, Text.length_utf8]
  have hlit : charLiteralWidth? 0x27 (Text.utf8 ('\\' :: c :: (tail ++ '\'' :: rest))) =
      some (tail.byteLength + 4) := by
    rw [charLiteralWidth?_escaped hc, hfind]
    rfl
  have hsize : c.utf8Size = 1 := by
    rw [← String.length_utf8EncodeChar, Text.encode_ascii hc]
    rfl
  have hquote : '\''.utf8Size = 1 := rfl
  have hslash : '\\'.utf8Size = 1 := rfl
  have hlength : Text.byteLength ('\\' :: c :: (tail ++ ['\''])) + 1 = tail.byteLength + 4 := by
    simp only [Text.byteLength_cons, Text.byteLength_append, Text.byteLength_nil, hsize, hquote,
      hslash]
    omega
  rw [hm, hlength, List.cons_append, List.cons_append, List.append_assoc]
  exact @stepCode_char s.behind _ _ hlit

end Code

theorem Stands.code {s : State} {behind rest : Text} {c : Char} (h : Stands s behind (c :: rest))
    (hc : c ≠ '\n') : s.mode = .code := by
  rcases h.mode with hm | ⟨-, hm | hm⟩
  · exact hm
  · cases hm
  · exact absurd (Option.some.inj hm) hc

namespace Piece

/-- The lines of a piece's characters that are neither blank nor in a comment, if the piece begins
on the given line. -/
def ink (line : Nat) (p : Piece) : List Nat := if p.isComment then [] else inkLines line p.text

/-- The lines of the characters of several pieces that are neither blank nor in a comment. -/
def inkAll (line : Nat) : List Piece → List Nat
  | [] => []
  | p :: ps => p.ink line ++ inkAll (line + p.text.count '\n') ps

/-- The pass crosses a piece that it meets between two pieces. -/
theorem crosses {p : Piece} {s : State} {behind rest : Text} (hs : Stands s behind (p.text ++ rest))
    (hp : p.Fits behind rest) :
    ∃ m, Crosses .rust s p.text.utf8 rest.utf8 m (p.ink s.line) ∧
      Stands (s.beyond p.text.utf8 m) (p.text.reverse ++ behind) rest := by
  have howed := hs.owed
  have hb := hs.behind
  have toCode : ∀ {q : Piece}, Inks s q.text rest .code → q.isComment = false →
      ∃ m, Crosses .rust s q.text.utf8 rest.utf8 m (q.ink s.line) ∧
        Stands (s.beyond q.text.utf8 m) (q.text.reverse ++ behind) rest := by
    intro q hq hcode
    refine ⟨.code, ?_, Stands.beyond hb q.text (.inl rfl)⟩
    rw [ink, hcode]
    exact hq
  cases p with
  | blank c =>
    by_cases hn : c = '\n'
    · subst hn
      have hcross := @Crosses.newline .rust _ rest.utf8 howed
      have hcode : (if s.mode = .lineComment then Mode.code else s.mode) = .code := by
        rcases hs.mode with hm | ⟨hm, -⟩
        · rw [if_neg (by rw [hm]; decide), hm]
        · rw [if_pos hm]
      rw [hcode] at hcross
      exact toCode (q := .blank '\n') hcross rfl
    · exact toCode (Inks.blank howed (hs.code hn) hp) rfl
  | lineComment content =>
    have hm := hs.code (by decide)
    have hopen : Skips s ['/', '/'] (content ++ rest) .lineComment := by
      refine Skips.turn howed (by decide) (by decide) ?_
      rw [hm]
      exact stepCode_line s.behind (content ++ rest).utf8
    exact ⟨.lineComment, hopen.append (Skips.lineComment rfl rfl hp.1),
      Stands.beyond hb _ (.inr ⟨rfl, hp.2⟩)⟩
  | blockComment content =>
    have hm := hs.code (by decide)
    have hopen : Skips s ['/', '*'] (content ++ rest) (.block 1) := by
      refine Skips.turn howed (by decide) (by decide) ?_
      rw [hm]
      exact stepCode_block s.behind (content ++ rest).utf8
    exact ⟨.code, hopen.append (Skips.balanced hp rfl rfl), Stands.beyond hb _ (.inl rfl)⟩
  | string content => exact toCode (Inks.string howed (hs.code (by decide)) hp) rfl
  | rawString hashes content =>
    exact toCode (Inks.rawString howed (hs.code (by decide)) hb hp.1 hp.2) rfl
  | char c => exact toCode (Inks.charLiteral howed (hs.code (by decide)) hp.1 hp.2.1 hp.2.2) rfl
  | escapedChar c tail =>
    obtain ⟨hc, hn, hlen, hq, hnl⟩ := hp
    exact toCode (Inks.escapedChar howed (hs.code (by decide)) hc hn hlen hq hnl) rfl
  | code c =>
    have hn : c ≠ '\n' := by
      rintro rfl
      exact absurd hp.not_blank (by decide)
    exact toCode (Inks.code howed (hs.code hn) hb hp) rfl

theorem crosses_all {ps : List Piece} {s : State} {behind rest : Text}
    (hs : Stands s behind (spell ps ++ rest)) (hp : FitAll rest behind ps) :
    ∃ m, Crosses .rust s (spell ps).utf8 rest.utf8 m (inkAll s.line ps) ∧
      Stands (s.beyond (spell ps).utf8 m) ((spell ps).reverse ++ behind) rest := by
  induction ps generalizing s behind with
  | nil => exact ⟨s.mode, Crosses.nil hs.owed, by simpa [State.beyond_nil hs.owed] using hs⟩
  | cons p ps ih =>
    rw [spell_cons, List.append_assoc] at hs
    obtain ⟨m, hcross, hstands⟩ := crosses hs hp.1
    obtain ⟨n, hrest, hend⟩ := ih hstands hp.2
    refine ⟨n, ?_, ?_⟩
    · rw [Text.utf8_append] at hcross
      rw [State.line_beyond] at hrest
      rw [spell_cons, Text.utf8_append]
      exact hcross.append hrest
    · rw [State.beyond_beyond, ← Text.utf8_append] at hend
      simpa [spell_cons] using hend

end Piece

end ClosureLint.Comment
