import ClosureLint.Proofs.Comment.Lookahead

/-! How the pass crosses comments and literals, from the character that opens them to their end. A
text is skipped when no line is marked on the way, and inked when exactly the lines of its
characters other than blanks are. -/

namespace ClosureLint.Comment

/-! ### Ink -/

/-- The lines of the characters that are not blank, in a text that begins on the given line. -/
def inkLines (line : Nat) : Text → List Nat
  | [] => []
  | c :: t =>
    (if isBlankChar c then [] else [line]) ++ inkLines (if c = '\n' then line + 1 else line) t

theorem inkLines_append (line : Nat) (a b : Text) :
    inkLines line (a ++ b) = inkLines line a ++ inkLines (line + a.count '\n') b := by
  induction a generalizing line with
  | nil => rfl
  | cons c a ih =>
    rw [List.cons_append, inkLines, inkLines, ih, List.append_assoc]
    congr 3
    rw [List.count_cons]
    by_cases h : c = '\n' <;> simp [h, Nat.add_comm, Nat.add_left_comm]

theorem mem_inkLines_of_newline_not_mem {line : Nat} {t : Text} (ht : '\n' ∉ t) (n : Nat) :
    n ∈ inkLines line t ↔ n = line ∧ ∃ c ∈ t, isBlankChar c = false := by
  induction t with
  | nil => simp [inkLines]
  | cons c t ih =>
    rw [List.mem_cons, not_or] at ht
    rw [inkLines, if_neg (Ne.symm ht.1), List.mem_append, ih ht.2]
    cases hc : isBlankChar c
    · simpa [hc] using fun hn _ _ _ => hn
    · simp [hc]

theorem mem_inkLines_of_line {line : Nat} {c : Char} {t : Text} (hc : isBlankChar c = false)
    (ht : '\n' ∉ c :: t) (n : Nat) : n ∈ inkLines line (c :: t) ↔ n = line := by
  rw [mem_inkLines_of_newline_not_mem ht]
  exact and_iff_left ⟨c, List.mem_cons_self .., hc⟩

theorem State.line_beyond (s : State) (t : Text) (m : Mode) :
    (s.beyond t.utf8 m).line = s.line + t.count '\n' := by
  rw [State.beyond, Text.count_newline]

/-- The pass crosses a text and marks the lines of all its characters but blanks. -/
def Inks (s : State) (t rest : Text) (m : Mode) : Prop :=
  Crosses .rust s t.utf8 rest.utf8 m (inkLines s.line t)

/-- The pass crosses a text and marks nothing. -/
def Skips (s : State) (t rest : Text) (m : Mode) : Prop :=
  Crosses .rust s t.utf8 rest.utf8 m []

section Join

variable {s : State} {a b rest : Text} {m n : Mode}

theorem Inks.append (ha : Inks s a (b ++ rest) m) (hb : Inks (s.beyond a.utf8 m) b rest n) :
    Inks s (a ++ b) rest n := by
  unfold Inks at *
  rw [Text.utf8_append] at ha
  rw [State.line_beyond] at hb
  rw [Text.utf8_append, inkLines_append]
  exact Crosses.append ha hb

theorem Skips.append (ha : Skips s a (b ++ rest) m) (hb : Skips (s.beyond a.utf8 m) b rest n) :
    Skips s (a ++ b) rest n := by
  unfold Skips at *
  rw [Text.utf8_append] at ha
  rw [Text.utf8_append]
  exact Crosses.append ha hb

theorem Inks.nil (h : s.owed = 0) : Inks s [] rest s.mode := Crosses.nil h

theorem Skips.nil (h : s.owed = 0) : Skips s [] rest s.mode := Crosses.nil h

end Join

variable {s : State} {rest behind : Text} {m : Mode}

theorem Inks.turn {c : Char} {t : Text} (h : s.owed = 0) (hc : c.toNat < 0x80)
    (hblank : isBlankChar c = false) (ht : '\n' ∉ c :: t)
    (hstep : step .rust s.mode s.behind (UInt8.ofNat c.toNat) (t ++ rest).utf8 =
      ⟨t.byteLength + 1, m, true, false⟩) : Inks s (c :: t) rest m := by
  have hutf := Text.utf8_cons_ascii hc t
  unfold Inks
  rw [hutf]
  rw [Text.utf8_append, ← Text.length_utf8] at hstep
  refine (Crosses.turn h hstep ?_).congr fun n => ?_
  · rw [← hutf]
    exact fun hn => ht ((Text.mem_utf8 (c := '\n') (by decide) _).mp hn)
  · rw [mem_inkLines_of_line hblank ht, if_pos rfl, List.mem_singleton]

theorem Skips.turn {c : Char} {t : Text} (h : s.owed = 0) (hc : c.toNat < 0x80)
    (ht : '\n' ∉ c :: t)
    (hstep : step .rust s.mode s.behind (UInt8.ofNat c.toNat) (t ++ rest).utf8 =
      ⟨t.byteLength + 1, m, false, false⟩) : Skips s (c :: t) rest m := by
  have hutf := Text.utf8_cons_ascii hc t
  unfold Skips
  rw [hutf]
  rw [Text.utf8_append, ← Text.length_utf8] at hstep
  refine Crosses.turn h hstep ?_
  rw [← hutf]
  exact fun hn => ht ((Text.mem_utf8 (c := '\n') (by decide) _).mp hn)

theorem Inks.char {c : Char} (h : s.owed = 0) (hm : s.mode.isCode = true)
    (hstep : c.toNat < 0x80 → c ≠ '\n' → step .rust s.mode s.behind (UInt8.ofNat c.toNat) rest.utf8 =
      ⟨1, s.mode, !isBlankChar c, false⟩) : Inks s [c] rest s.mode := by
  have hchar := @Crosses.char s rest.utf8 c h
    (fun _ he => by rw [he] at hm; cases hm) fun hc hn => by rw [hstep hc hn, hm, Bool.true_and]
  have hutf : Text.utf8 [c] = String.utf8EncodeChar c := List.append_nil _
  unfold Inks
  rw [hutf]
  refine hchar.congr fun n => ?_
  rw [inkLines, inkLines, List.append_nil, hm]
  cases isBlankChar c <;> simp

theorem Skips.char {c : Char} {depth : Nat} (h : s.owed = 0) (hm : s.mode = .block depth)
    (hstep : c.toNat < 0x80 → c ≠ '\n' → step .rust s.mode s.behind (UInt8.ofNat c.toNat) rest.utf8 =
      ⟨1, s.mode, false, false⟩) : Skips s [c] rest s.mode := by
  have hcode : s.mode.isCode = false := by rw [hm]; rfl
  have hchar := @Crosses.char s rest.utf8 c h
    (fun _ he => by rw [he] at hm; cases hm) fun hc hn => by rw [hstep hc hn, hcode, Bool.false_and]
  have hutf : Text.utf8 [c] = String.utf8EncodeChar c := List.append_nil _
  unfold Skips
  rw [hutf]
  simpa [hcode] using hchar

theorem byte_ne {c d : Char} (hc : c.toNat < 0x80) (hd : d.toNat < 0x80) (h : c ≠ d) :
    UInt8.ofNat c.toNat ≠ UInt8.ofNat d.toNat :=
  fun he => h (Text.ofNat_inj hc hd he)

/-! ### Comments -/

theorem Skips.lineComment {t : Text} (h : s.owed = 0) (hm : s.mode = .lineComment) (ht : '\n' ∉ t) :
    Skips s t rest .lineComment := by
  have hb : (0x0a : UInt8) ∉ t.utf8 := fun hn =>
    ht ((Text.mem_utf8 (c := '\n') (by decide) t).mp hn)
  have := @Crosses.each s rest.utf8 .rust t.utf8 false h
    fun x hx behind rest => by
      have hx : x ≠ 0x0a := fun he => hb (he ▸ hx)
      rw [hm]
      simp [step, hx]
  unfold Skips
  simpa [hm] using this

/-- The mode inside so many block comments. -/
def blockMode (depth : Nat) : Mode := if depth = 0 then .code else .block depth

theorem blockMode_succ (depth : Nat) : blockMode (depth + 1) = .block (depth + 1) :=
  if_neg (by omega)

theorem closeBlock_succ (depth : Nat) : closeBlock (depth + 1) = blockMode depth := by
  unfold closeBlock blockMode
  by_cases h : depth = 0
  · simp [h]
  · rw [if_neg (by omega), if_neg h, Nat.add_sub_cancel]

theorem Balanced.ne_nil {depth : Nat} {t : Text} (h : Balanced (depth + 1) t) : t ≠ [] := by
  rintro rfl
  cases h

/-- Whether a text begins with a marker of two characters shows in two characters. -/
theorem isPrefixOf_append_of_pair {a b c : Char} {t : Text} (ht : t ≠ []) (rest : Text) :
    [a, b].isPrefixOf (c :: t) = [a, b].isPrefixOf (c :: (t ++ rest)) := by
  cases t with
  | nil => exact absurd rfl ht
  | cons d t => simp [List.isPrefixOf]

theorem step_block_other {c : Char} {t : Text} {depth : Nat} {behind : List UInt8}
    (hc : c.toNat < 0x80) (hn : c ≠ '\n') (hopen : ['/', '*'].isPrefixOf (c :: t) = false)
    (hclose : ['*', '/'].isPrefixOf (c :: t) = false) :
    step .rust (.block depth) behind (UInt8.ofNat c.toNat) t.utf8 =
      ⟨1, .block depth, false, false⟩ := by
  have hb : UInt8.ofNat c.toNat ≠ 0x0a := byte_ne hc (d := '\n') (by decide) hn
  rw [step, if_neg (by simpa using hb)]
  exact stepBlock_other depth hc hopen hclose

/-- What is left of block comments, to the end of the outermost. -/
theorem Skips.balanced {depth : Nat} {t : Text} (ht : Balanced depth t) (h : s.owed = 0)
    (hm : s.mode = blockMode depth) : Skips s t rest .code := by
  induction ht generalizing s with
  | nil =>
    have hcode : s.mode = .code := hm
    exact hcode ▸ Skips.nil h
  | @opening depth t ht ih =>
    rw [blockMode_succ] at hm
    have hturn : Skips s ['/', '*'] (t ++ rest) (.block (depth + 2)) := by
      refine Skips.turn h (by decide) (by decide) ?_
      rw [hm]
      exact stepBlock_opening (depth + 1) (t ++ rest).utf8
    exact hturn.append (ih rfl rfl)
  | @closing depth t ht ih =>
    rw [blockMode_succ] at hm
    have hturn : Skips s ['*', '/'] (t ++ rest) (blockMode depth) := by
      refine Skips.turn h (by decide) (by decide) ?_
      rw [hm, ← closeBlock_succ]
      exact stepBlock_closing (depth + 1) (t ++ rest).utf8
    exact hturn.append (ih rfl rfl)
  | @other depth c t hopen hclose ht ih =>
    rw [blockMode_succ] at hm
    rw [isPrefixOf_append_of_pair ht.ne_nil rest] at hopen hclose
    have hchar : Skips s [c] (t ++ rest) s.mode := by
      refine Skips.char h hm fun hc hn => ?_
      rw [hm]
      exact step_block_other hc hn hopen hclose
    rw [hm] at hchar
    exact hchar.append (ih rfl rfl)

/-! ### Strings -/

theorem Inks.quotedChar {c : Char} (h : s.owed = 0) (hm : s.mode = .quoted) (hq : c ≠ '"')
    (hb : c ≠ '\\') : Inks s [c] rest .quoted := by
  rw [← hm]
  refine Inks.char h (by rw [hm]; rfl) fun hc hn => ?_
  have h1 := byte_ne hc (d := '\n') (by decide) hn
  have h2 := byte_ne hc (d := '"') (by decide) hq
  have h3 : UInt8.ofNat c.toNat ≠ 0x5c := byte_ne hc (d := '\\') (by decide) hb
  rw [hm, step, if_neg (by simpa using h1)]
  simp only [stepQuoted]
  rw [if_neg (by simp [h3]), if_neg (by simpa using h2), isBlank_byte hc]

theorem Inks.quotedPair {c : Char} (h : s.owed = 0) (hm : s.mode = .quoted) :
    Inks s ['\\', c] rest .quoted := by
  by_cases hn : c = '\n'
  · subst hn
    have hslash : Inks s ['\\'] (['\n'] ++ rest) .quoted := by
      refine Inks.turn h (by decide) rfl (by decide) ?_
      rw [hm]
      rfl
    exact hslash.append (Crosses.newline rfl)
  cases he : String.utf8EncodeChar c with
  | nil => exact absurd he String.utf8EncodeChar_ne_nil
  | cons x xs =>
    have hx : (0x0a : UInt8) ∉ x :: xs := fun hx =>
      hn ((Text.mem_encode (c := '\n') (by decide) c).mp (he ▸ hx)).symm
    have hne : x ≠ 0x0a := fun h => hx (by simp [h])
    -- The turn on the backslash takes one byte of the character; the others mean nothing.
    have hpair : Crosses .rust s [0x5c, x] (xs ++ rest.utf8) .quoted [s.line] := by
      refine @Crosses.turn .rust s [x] (xs ++ rest.utf8) .quoted 0x5c true h ?_ ?_
      · rw [hm]
        simp [step, stepQuoted, hne]
      · simp [Ne.symm hne]
    have htail := @Crosses.each (s.beyond [0x5c, x] .quoted) rest.utf8 .rust xs _ rfl
      fun y hy _ _ => step_high (Text.encode_tail he hy)
    have hline : (s.beyond [0x5c, x] .quoted).line = s.line := by
      simp [State.beyond, hne]
    have hutf : Text.utf8 ['\\', c] = [0x5c, x] ++ xs := by
      rw [Text.utf8_cons_ascii (by decide), Text.utf8_cons, he]
      simp
    rw [hline] at htail
    unfold Inks
    rw [hutf]
    refine (hpair.append htail).congr fun n => ?_
    rw [mem_inkLines_of_line rfl (by simpa using Ne.symm hn)]
    split <;> simp

theorem Inks.stringContent {t : Text} (ht : StringContent t) (h : s.owed = 0)
    (hm : s.mode = .quoted) : Inks s t rest .quoted := by
  induction ht generalizing s with
  | nil => exact hm ▸ Inks.nil h
  | @plain c t hq hb ht ih =>
    have hchar : Inks s [c] (t ++ rest) .quoted := Inks.quotedChar h hm hq hb
    exact hchar.append (ih rfl rfl)
  | @pair c t ht ih =>
    have hpair : Inks s ['\\', c] (t ++ rest) .quoted := Inks.quotedPair h hm
    exact hpair.append (ih rfl rfl)

/-! ### Raw strings -/

theorem utf8_hashes (n : Nat) : Text.utf8 (List.replicate n '#') = List.replicate n 0x23 :=
  Text.utf8_replicate (by decide) n

theorem hashes_prefix {n : Nat} {t : Text} (h : List.replicate n '#' <+: t ++ '"' :: rest) :
    List.replicate n '#' <+: t := by
  induction n generalizing t with
  | zero => exact List.nil_prefix
  | succ n ih =>
    rw [List.replicate_succ] at h ⊢
    cases t with
    | nil =>
      have := (List.cons_prefix_cons.mp h).1
      exact absurd this (by decide)
    | cons d t =>
      rw [List.cons_append] at h
      obtain ⟨rfl, htail⟩ := List.cons_prefix_cons.mp h
      exact List.cons_prefix_cons.mpr ⟨rfl, ih htail⟩

/-- The content of a raw string, in front of the quote that ends it. -/
theorem Inks.rawContent {hashes : Nat} {t : Text} (ht : ¬ '"' :: List.replicate hashes '#' <:+: t)
    (h : s.owed = 0) (hm : s.mode = .rawQuoted hashes) :
    Inks s t ('"' :: rest) (.rawQuoted hashes) := by
  induction t generalizing s with
  | nil => exact hm ▸ Inks.nil h
  | cons c t ih =>
    have htail : ¬ '"' :: List.replicate hashes '#' <:+: t := fun hi =>
      ht (hi.trans (List.suffix_cons c t).isInfix)
    have hchar : Inks s [c] (t ++ '"' :: rest) s.mode := by
      refine Inks.char h (by rw [hm]; rfl) fun hc hn => ?_
      have hnl := byte_ne hc (d := '\n') (by decide) hn
      rw [hm, step, if_neg (by simpa using hnl), stepRaw, if_neg, isBlank_byte hc]
      intro hclose
      obtain ⟨hquote, htail'⟩ := Bool.and_eq_true_iff.mp hclose
      have hc' : c = '"' := Text.ofNat_inj hc (d := '"') (by decide) (by simpa using hquote)
      rw [← utf8_hashes, Text.isPrefixOf_utf8 (by simp), List.isPrefixOf_iff_prefix] at htail'
      exact ht (hc' ▸ (List.cons_prefix_cons.mpr ⟨rfl, hashes_prefix htail'⟩).isInfix)
    rw [hm] at hchar
    exact hchar.append (ih htail rfl rfl)

end ClosureLint.Comment
