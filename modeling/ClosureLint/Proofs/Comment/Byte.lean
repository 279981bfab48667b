import ClosureLint.Proofs.Comment.Crossing
import ClosureLint.Proofs.Text.Utf8

/-! The turns of the pass under the conventions of Rust, on single bytes and single characters. Only
seven bytes mean anything to it besides blanks; every other character, and every character in a mode
that it means nothing in, is crossed in the mode that it is met in. -/

namespace ClosureLint.Comment

/-! ### Single bytes under the conventions of Rust -/

/-- Whether the turns in a mode mark their lines. -/
def Mode.isCode : Mode → Bool
  | .lineComment | .block _ => false
  | .code | .quoted | .rawQuoted _ => true

theorem occurs_utf8 {m : Text} (hm : m.all (fun c => decide (c.toNat < 0x80)) = true) (t : Text) :
    occurs m t.utf8 = (!m.isEmpty && m.isPrefixOf t) := by
  rw [occurs, Text.isPrefixOf_utf8 (Text.forall_of_all hm)]

theorem occurs_pair {c d : Char} (hc : c.toNat < 0x80) (hd : d.toNat < 0x80) (b : UInt8)
    (rest : List UInt8) : occurs [c, d] (b :: rest) =
      (b == UInt8.ofNat c.toNat && rest.head? == some (UInt8.ofNat d.toNat)) := by
  rw [occurs, Text.utf8_cons_ascii hc, Text.utf8_cons_ascii hd]
  cases rest <;> simp [List.isPrefixOf, Bool.beq_comm]

theorem occurs_line (b : UInt8) (rest : List UInt8) :
    occurs CommentStyle.rust.line (b :: rest) = (b == 0x2f && rest.head? == some 0x2f) :=
  occurs_pair (c := '/') (d := '/') (by decide) (by decide) b rest

theorem occurs_blockOpen (b : UInt8) (rest : List UInt8) :
    occurs CommentStyle.rust.blockOpen (b :: rest) = (b == 0x2f && rest.head? == some 0x2a) :=
  occurs_pair (c := '/') (d := '*') (by decide) (by decide) b rest

theorem occurs_blockClose (b : UInt8) (rest : List UInt8) :
    occurs CommentStyle.rust.blockClose (b :: rest) = (b == 0x2a && rest.head? == some 0x2f) :=
  occurs_pair (c := '*') (d := '/') (by decide) (by decide) b rest

theorem stepBlock_opening (depth : Nat) (rest : List UInt8) :
    stepBlock .rust depth (0x2f :: 0x2a :: rest) = ⟨2, .block (depth + 1), false, false⟩ := by
  have hw : markerWidth CommentStyle.rust.blockOpen = 2 := rfl
  have hn : CommentStyle.rust.nestedBlocks = true := rfl
  simp [stepBlock, occurs_blockOpen, hw, hn]

theorem stepBlock_closing (depth : Nat) (rest : List UInt8) :
    stepBlock .rust depth (0x2a :: 0x2f :: rest) = ⟨2, closeBlock depth, false, false⟩ := by
  have hw : markerWidth CommentStyle.rust.blockClose = 2 := rfl
  simp [stepBlock, occurs_blockOpen, occurs_blockClose, hw]

theorem stepBlock_other {c : Char} {t : Text} (depth : Nat) (hc : c.toNat < 0x80)
    (ho : ['/', '*'].isPrefixOf (c :: t) = false) (hx : ['*', '/'].isPrefixOf (c :: t) = false) :
    stepBlock .rust depth (UInt8.ofNat c.toNat :: t.utf8) = ⟨1, .block depth, false, false⟩ := by
  have hopen : occurs CommentStyle.rust.blockOpen (UInt8.ofNat c.toNat :: t.utf8) = false := by
    rw [← Text.utf8_cons_ascii hc, occurs_utf8 (by decide)]
    exact Bool.and_eq_false_imp.mpr fun _ => ho
  have hclose : occurs CommentStyle.rust.blockClose (UInt8.ofNat c.toNat :: t.utf8) = false := by
    rw [← Text.utf8_cons_ascii hc, occurs_utf8 (by decide)]
    exact Bool.and_eq_false_imp.mpr fun _ => hx
  simp [stepBlock, hopen, hclose]

theorem stepCode_line (behind rest : List UInt8) :
    stepCode .rust behind 0x2f (0x2f :: rest) = ⟨2, .lineComment, false, false⟩ := by
  have hw : markerWidth CommentStyle.rust.line = 2 := rfl
  simp [stepCode, occurs_line, hw]

theorem stepCode_block (behind rest : List UInt8) :
    stepCode .rust behind 0x2f (0x2a :: rest) = ⟨2, .block 1, false, false⟩ := by
  have hw : markerWidth CommentStyle.rust.blockOpen = 2 := rfl
  simp [stepCode, occurs_line, occurs_blockOpen, hw]

theorem stepCode_raw {behind rest : List UInt8} {hashes : Nat}
    (h : rawHashes? behind 0x72 rest = some hashes) :
    stepCode .rust behind 0x72 rest = ⟨hashes + 2, .rawQuoted hashes, true, false⟩ := by
  have hraw : CommentStyle.rust.rawStrings = true := rfl
  simp [stepCode, occurs_line, occurs_blockOpen, hraw, h]

theorem stepCode_char {behind rest : List UInt8} {width : Nat}
    (h : charLiteralWidth? 0x27 rest = some width) :
    stepCode .rust behind 0x27 rest = ⟨width, .code, true, false⟩ := by
  have hchar : CommentStyle.rust.charLiterals = true := rfl
  simp [stepCode, occurs_line, occurs_blockOpen, rawHashes?, hchar, h]

theorem stepRaw_closing (hashes : Nat) (rest : List UInt8) :
    stepRaw hashes 0x22 (List.replicate hashes 0x23 ++ rest) = ⟨1 + hashes, .code, true, false⟩ := by
  have hhashes : (List.replicate hashes (0x23 : UInt8)).isPrefixOf
      (List.replicate hashes 0x23 ++ rest) = true :=
    List.isPrefixOf_iff_prefix.mpr (List.prefix_append _ _)
  simp [stepRaw, hhashes]

theorem step_code_plain {behind rest : List UInt8} {b : UInt8} (hn : b ≠ 0x0a) (hs : b ≠ 0x2f)
    (hr : b ≠ 0x72) (hq : b ≠ 0x22) (ha : b ≠ 0x27) :
    step .rust .code behind b rest = ⟨1, .code, !isBlank b, false⟩ := by
  simp [step, hn, stepCode, occurs_line, occurs_blockOpen, hs, rawHashes?, hr, hq,
    charLiteralWidth?, ha]

/-- A byte that means nothing in any mode. -/
theorem step_plain {m : Mode} {behind rest : List UInt8} {b : UInt8}
    (h : b ∉ [0x0a, 0x2f, 0x2a, 0x72, 0x22, 0x27, 0x5c]) :
    step .rust m behind b rest = ⟨1, m, m.isCode && !isBlank b, false⟩ := by
  simp only [List.mem_cons, List.not_mem_nil, or_false, not_or] at h
  obtain ⟨hn, hslash, hstar, hr, hquote, hapostrophe, hescape⟩ := h
  cases m with
  | code => exact step_code_plain hn hslash hr hquote hapostrophe
  | lineComment => simp [step, hn, Mode.isCode]
  | block depth =>
    simp [step, hn, stepBlock, occurs_blockOpen, occurs_blockClose, hslash, hstar, Mode.isCode]
  | quoted => simp [step, hn, stepQuoted, hescape, hquote, Mode.isCode]
  | rawQuoted hashes => simp [step, hn, stepRaw, hquote, Mode.isCode]

/-- The bytes of characters beyond ASCII mean nothing in any mode. -/
theorem step_high {m : Mode} {behind rest : List UInt8} {b : UInt8} (hb : 0x80 ≤ b) :
    step .rust m behind b rest = ⟨1, m, m.isCode, false⟩ := by
  have hne : ∀ x : UInt8, x < 0x80 → b ≠ x := by
    intro x hx h
    subst h
    exact absurd hb (UInt8.not_le.mpr hx)
  have hblank : isBlank b = false := by
    simp [isBlank, hne 0x20 (by decide), hne 0x09 (by decide), hne 0x0a (by decide),
      hne 0x0c (by decide), hne 0x0d (by decide)]
  have hascii : ∀ x ∈ [0x0a, 0x2f, 0x2a, 0x72, 0x22, 0x27, 0x5c], x < (0x80 : UInt8) := by simp
  rw [step_plain fun hmem => hne b (hascii b hmem) rfl, hblank, Bool.not_false, Bool.and_true]

/-! ### Characters -/

theorem charWidth_lead (c : Char) {x : UInt8} {xs : List UInt8}
    (h : String.utf8EncodeChar c = x :: xs) : charWidth x = c.utf8Size := by
  have hlen : xs.length + 1 = c.utf8Size := by
    rw [← String.length_utf8EncodeChar, h, List.length_cons]
  have hv : c.val.toNat = c.toNat := rfl
  have hval := c.valid
  simp only [String.utf8EncodeChar, hv] at h
  rw [← hlen]
  simp only [charWidth, UInt8.lt_iff_toNat_lt]
  split at h
  · simp only [List.cons.injEq] at h
    obtain ⟨rfl, rfl⟩ := h
    rw [if_pos (by simp; omega)]
    rfl
  split at h
  · simp only [List.cons.injEq] at h
    obtain ⟨rfl, rfl⟩ := h
    rw [if_neg (by simp; omega), if_pos (by simp; omega)]
    rfl
  split at h
  · simp only [List.cons.injEq] at h
    obtain ⟨rfl, rfl⟩ := h
    rw [if_neg (by simp; omega), if_neg (by simp; omega), if_pos (by simp; omega)]
    rfl
  · simp only [List.cons.injEq] at h
    obtain ⟨rfl, rfl⟩ := h
    rw [if_neg (by simp; omega), if_neg (by simp; omega), if_neg (by simp; omega)]
    rfl

/-- Space, tab, newline, form feed and carriage return; the vertical tab is not among them. -/
def isBlankChar (c : Char) : Bool :=
  c == ' ' || c == '\t' || c == '\n' || c == '\x0c' || c == '\r'

/-- An ASCII letter or digit, or an underscore. -/
def isWordChar (c : Char) : Bool := c.isAlphanum || c == '_'

theorem ascii_forall {P : Char → Prop} (h : ∀ n < 0x80, P (Char.ofNat n)) {c : Char}
    (hc : c.toNat < 0x80) : P c := by
  have := h c.toNat hc
  rwa [Char.ofNat_toNat] at this

theorem isBlank_byte {c : Char} (hc : c.toNat < 0x80) :
    isBlank (UInt8.ofNat c.toNat) = isBlankChar c := by
  refine ascii_forall (P := fun c => isBlank (UInt8.ofNat c.toNat) = isBlankChar c) ?_ hc
  decide

theorem isWord_byte {c : Char} (hc : c.toNat < 0x80) :
    isWord (UInt8.ofNat c.toNat) = isWordChar c := by
  refine ascii_forall (P := fun c => isWord (UInt8.ofNat c.toNat) = isWordChar c) ?_ hc
  decide

theorem isBlankChar_high {c : Char} (hc : 0x80 ≤ c.toNat) : isBlankChar c = false := by
  have hne : ∀ d : Char, d.toNat < 0x80 → c ≠ d := fun d hd h => by rw [h] at hc; omega
  simp [isBlankChar, hne ' ' (by decide), hne '\t' (by decide), hne '\n' (by decide),
    hne '\x0c' (by decide), hne '\r' (by decide)]

namespace Crosses

variable {s : State} {rest : List UInt8}

theorem each {style : CommentStyle} {a : List UInt8} {marks : Bool} (h : s.owed = 0)
    (hstep : ∀ x ∈ a, ∀ behind rest, step style s.mode behind x rest = ⟨1, s.mode, marks, false⟩) :
    Crosses style s a rest s.mode (if marks = true ∧ a ≠ [] then [s.line] else []) := by
  induction a generalizing s with
  | nil => simpa using nil h
  | cons x a ih =>
    have hx : x ≠ 0x0a := by
      rintro rfl
      have := hstep 0x0a (by simp) [] []
      simp [step] at this
    have hturn : Crosses style s [x] (a ++ rest) s.mode (if marks then [s.line] else []) :=
      turn h (hstep x (by simp) _ _) (by simpa using hx.symm)
    have htail := ih (s := s.beyond [x] s.mode) rfl fun y hy => hstep y (by simp [hy])
    have hline : (s.beyond [x] s.mode).line = s.line := by
      simp [State.beyond, hx]
    rw [hline] at htail
    have hall := hturn.append htail
    refine ⟨hall.reaches, fun n => (hall.marks n).trans ?_⟩
    cases marks <;> simp

theorem char {c : Char} (h : s.owed = 0) (hm : c = '\n' → s.mode ≠ .lineComment)
    (hstep : c.toNat < 0x80 → c ≠ '\n' → step .rust s.mode s.behind (UInt8.ofNat c.toNat) rest =
      ⟨1, s.mode, s.mode.isCode && !isBlankChar c, false⟩) :
    Crosses .rust s (String.utf8EncodeChar c) rest s.mode
      (if s.mode.isCode && !isBlankChar c then [s.line] else []) := by
  by_cases hn : c = '\n'
  · subst hn
    have := @newline .rust _ rest h
    rw [if_neg (hm rfl)] at this
    have he : String.utf8EncodeChar '\n' = [0x0a] := rfl
    simpa [isBlankChar, he] using this
  by_cases hc : c.toNat < 0x80
  · rw [Text.encode_ascii hc]
    refine turn (a := []) h (hstep hc hn) ?_
    rw [List.mem_singleton]
    exact fun he => hn (Text.ofNat_inj hc (d := '\n') (by decide) he.symm)
  · have heach := @each s rest .rust (String.utf8EncodeChar c) _ h
      fun x hx behind rest => step_high (Text.encode_high (by omega) hx)
    simpa [isBlankChar_high (c := c) (by omega)] using heach

end Crosses

end ClosureLint.Comment
