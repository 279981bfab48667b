import ClosureLint.Proofs.Comment.CodeLines
import ClosureLint.Proofs.Comment.Newlines
import ClosureLint.Proofs.Comment.Restart

/-! Texts that are put together from two. A turn that takes no more bytes than there are in front of
a cut takes the same ones without the text behind the cut: the markers, hashes and quotes that it
finds would have to be among its bytes, and what it does not find in both parts it does not find in
one. So where the pass over two texts stands at the cut outside comments and literals, the code
lines of the whole are those of the two parts. -/

namespace ClosureLint.Comment

variable {style : CommentStyle} {s : State} {front rest : List UInt8} {b : UInt8}

/-! ### What a turn finds in front of a cut -/

theorem occurs_within {marker : Text}
    (h : occurs marker (b :: (front ++ rest)) = true → markerWidth marker ≤ front.length + 1) :
    occurs marker (b :: front) = occurs marker (b :: (front ++ rest)) := by
  have hfront : b :: front <+: b :: (front ++ rest) := List.prefix_append (b :: front) rest
  simp only [occurs] at h ⊢
  congr 1
  rw [Bool.eq_iff_iff, List.isPrefixOf_iff_prefix, List.isPrefixOf_iff_prefix]
  refine ⟨fun hmarker => hmarker.trans hfront, fun hmarker => ?_⟩
  cases hempty : marker.isEmpty with
  | true =>
    rw [List.isEmpty_iff.mp hempty]
    exact List.nil_prefix
  | false =>
    rw [hempty, Bool.not_false, Bool.true_and, List.isPrefixOf_iff_prefix, markerWidth,
      ← Text.length_utf8] at h
    exact List.prefix_of_prefix_length_le hmarker hfront (h hmarker)

theorem rawHashes?_hashes (behind : List UInt8) (n : Nat) (tail : List UInt8) :
    rawHashes? behind 0x72 (List.replicate n 0x23 ++ 0x22 :: tail) =
      if mayOpenRaw behind then some n else none := by
  have htake : (List.replicate n (0x23 : UInt8) ++ 0x22 :: tail).takeWhile (· == 0x23) =
      List.replicate n 0x23 := by
    rw [List.takeWhile_append_of_pos (by simp)]
    simp
  simp [rawHashes?, htake]

theorem rawHashes?_within {behind : List UInt8}
    (h : ∀ n, rawHashes? behind b (front ++ rest) = some n → n + 1 ≤ front.length) :
    rawHashes? behind b front = rawHashes? behind b (front ++ rest) := by
  cases hall : rawHashes? behind b (front ++ rest) with
  | some n =>
    have hlen := h n hall
    obtain ⟨rfl, tail, htail⟩ := rawHashes?_eq_some hall
    have hfront : List.replicate n 0x23 ++ [0x22] <+: front := by
      refine List.prefix_of_prefix_length_le ?_ (List.prefix_append front rest)
        (by simpa using hlen)
      rw [htail]
      exact ⟨tail, by simp⟩
    obtain ⟨tail', rfl⟩ := hfront
    rw [htail, rawHashes?_hashes] at hall
    rw [List.append_assoc, List.singleton_append, rawHashes?_hashes, hall]
  | none =>
    cases hfront : rawHashes? behind b front with
    | none => rfl
    | some n =>
      obtain ⟨rfl, tail, rfl⟩ := rawHashes?_eq_some hfront
      rw [List.append_assoc, List.cons_append, rawHashes?_hashes] at hall
      rw [rawHashes?_hashes, hall] at hfront
      exact hfront.symm

theorem three_le_of_charLiteralWidth? {width : Nat} (h : charLiteralWidth? b rest = some width) :
    3 ≤ width := by
  rw [charLiteralWidth?.eq_def] at h
  split at h
  · split at h
    case h_2 =>
      obtain ⟨k, -, rfl⟩ := Option.map_eq_some_iff.mp h
      omega
    case h_6 x _ _ _ _ _ =>
      have := charWidth_pos x
      obtain ⟨-, hwidth⟩ := Option.ite_none_right_eq_some.mp h
      cases hwidth
      omega
    all_goals cases h
  · cases h

theorem charLiteralWidth?_short {n : Nat} (hn : n < 3)
    (h : ∀ width, charLiteralWidth? b rest = some width → width ≤ n) :
    charLiteralWidth? b rest = none := by
  refine Option.eq_none_iff_forall_ne_some.mpr fun width hwidth => ?_
  have := three_le_of_charLiteralWidth? hwidth
  have := h width hwidth
  omega

/-- The quote that ends an escape is looked for in front of the cut first. -/
theorem findIdx?_within {n : Nat}
    (h : ∀ k, ((front ++ rest).take n).findIdx? (· == 0x27) = some k → k < front.length) :
    (front.take n).findIdx? (· == 0x27) = ((front ++ rest).take n).findIdx? (· == 0x27) := by
  rw [List.take_append, List.findIdx?_append] at h ⊢
  cases hfront : (front.take n).findIdx? (· == 0x27) with
  | some k => rfl
  | none =>
    rw [hfront, Option.none_or] at h
    rw [Option.none_or]
    cases hrest : (rest.take (n - front.length)).findIdx? (· == 0x27) with
    | none => rfl
    | some k =>
      have hk : k + (front.take n).length < front.length := h _ (by rw [hrest]; rfl)
      have hlen := (List.findIdx?_eq_some_iff_getElem.mp hrest).1
      rw [List.length_take] at hk hlen
      omega

theorem charLiteralWidth?_within
    (h : ∀ width, charLiteralWidth? b (front ++ rest) = some width → width ≤ front.length + 1) :
    charLiteralWidth? b front = charLiteralWidth? b (front ++ rest) := by
  by_cases hb : b = 0x27
  · subst hb
    match front with
    | [] => exact (charLiteralWidth?_short (by decide) h).symm
    | x :: tail =>
      by_cases hq : x = 0x27
      · subst hq
        rfl
      by_cases hn : x = 0x0a
      · subst hn
        rfl
      by_cases hs : x = 0x5c
      · subst hs
        match tail with
        | [] => exact (charLiteralWidth?_short (by decide) h).symm
        | y :: tail =>
          rw [List.cons_append, List.cons_append, charLiteralWidth?_escape] at h ⊢
          rw [charLiteralWidth?_escape, findIdx?_within]
          intro k hk
          have hwidth := h (k + 4) (by rw [hk]; rfl)
          simp only [List.length_cons] at hwidth
          omega
      · have hall := charLiteralWidth?_byte hq hs hn (tail ++ rest)
        rw [← List.cons_append] at hall
        rw [hall] at h ⊢
        rw [charLiteralWidth?_byte hq hs hn]
        by_cases hlt : charWidth x < (x :: tail).length
        · rw [List.getElem?_append_left hlt]
        · have hno : ((x :: tail) ++ rest)[charWidth x]? ≠ some 0x27 := fun hquote => by
            have := h _ (if_pos hquote)
            omega
          rw [if_neg hno, List.getElem?_eq_none (by omega), if_neg nofun]
  · simp [charLiteralWidth?, hb]

/-! ### Turns in front of a cut -/

theorem stepBlock_within {depth : Nat}
    (h : (stepBlock style depth (b :: (front ++ rest))).width ≤ front.length + 1) :
    stepBlock style depth (b :: front) = stepBlock style depth (b :: (front ++ rest)) := by
  have hopen : (style.nestedBlocks && occurs style.blockOpen (b :: front)) =
      (style.nestedBlocks && occurs style.blockOpen (b :: (front ++ rest))) := by
    cases hnested : style.nestedBlocks with
    | false => rfl
    | true =>
      rw [Bool.true_and, Bool.true_and]
      refine occurs_within fun hoccurs => ?_
      rwa [stepBlock, hnested, Bool.true_and, if_pos hoccurs] at h
  rw [stepBlock, stepBlock, hopen]
  rw [stepBlock] at h
  split
  · rfl
  next hno =>
    rw [if_neg hno] at h
    have hclose : occurs style.blockClose (b :: front) =
        occurs style.blockClose (b :: (front ++ rest)) :=
      occurs_within fun hoccurs => by rwa [if_pos hoccurs] at h
    rw [hclose]

theorem stepQuoted_within (h : (stepQuoted b (front ++ rest)).width ≤ front.length + 1) :
    stepQuoted b front = stepQuoted b (front ++ rest) := by
  cases front with
  | cons x front => rfl
  | nil =>
    -- With nothing in front of the cut, the turn is no escape.
    have hescape : ¬ (b == 0x5c && rest.head?.any (· != 0x0a)) = true := fun hescape => by
      rw [List.nil_append, stepQuoted, if_pos hescape] at h
      exact absurd h (by decide)
    rw [List.nil_append, stepQuoted, stepQuoted, if_neg hescape, if_neg (by simp)]

theorem stepRaw_within {hashes : Nat}
    (h : (stepRaw hashes b (front ++ rest)).width ≤ front.length + 1) :
    stepRaw hashes b front = stepRaw hashes b (front ++ rest) := by
  by_cases hb : b = 0x22
  · have hprefix : (List.replicate hashes (0x23 : UInt8)).isPrefixOf front =
        (List.replicate hashes 0x23).isPrefixOf (front ++ rest) := by
      rw [Bool.eq_iff_iff, List.isPrefixOf_iff_prefix, List.isPrefixOf_iff_prefix]
      refine ⟨fun hp => hp.trans (List.prefix_append front rest), fun hp => ?_⟩
      refine List.prefix_of_prefix_length_le hp (List.prefix_append front rest) ?_
      rw [stepRaw, hb, beq_self_eq_true, Bool.true_and,
        if_pos (List.isPrefixOf_iff_prefix.mpr hp)] at h
      rw [List.length_replicate]
      simp only at h
      omega
    rw [stepRaw, stepRaw, hprefix]
  · simp [stepRaw, hb]

theorem stepCode_within {behind : List UInt8}
    (h : (stepCode style behind b (front ++ rest)).width ≤ front.length + 1) :
    stepCode style behind b front = stepCode style behind b (front ++ rest) := by
  have hline : occurs style.line (b :: front) = occurs style.line (b :: (front ++ rest)) :=
    occurs_within fun hoccurs => by rwa [stepCode, if_pos hoccurs] at h
  rw [stepCode, stepCode, hline]
  rw [stepCode] at h
  split
  · rfl
  next hno =>
    rw [if_neg hno] at h
    have hopen : occurs style.blockOpen (b :: front) =
        occurs style.blockOpen (b :: (front ++ rest)) :=
      occurs_within fun hoccurs => by rwa [if_pos hoccurs] at h
    rw [hopen]
    split
    · rfl
    next hno =>
      rw [if_neg hno] at h
      have hraw : (if style.rawStrings then rawHashes? behind b front else none) =
          if style.rawStrings then rawHashes? behind b (front ++ rest) else none := by
        split
        next hraw =>
          refine rawHashes?_within fun n hn => ?_
          rw [if_pos hraw, hn] at h
          exact Nat.le_of_succ_le_succ h
        next => rfl
      rw [hraw]
      split
      · rfl
      next hnone =>
        rw [hnone] at h
        have hchar : b ≠ 0x22 → (if style.charLiterals then charLiteralWidth? b front else none) =
            if style.charLiterals then charLiteralWidth? b (front ++ rest) else none := by
          intro hb
          split
          next hchar =>
            refine charLiteralWidth?_within fun width hwidth => ?_
            rwa [if_neg (by simpa using hb), if_pos hchar, hwidth] at h
          next => rfl
        by_cases hb : b = 0x22
        · rw [if_pos (beq_iff_eq.mpr hb), if_pos (beq_iff_eq.mpr hb)]
        · rw [hchar hb]

/-- A turn that does not reach beyond a cut is the same without the bytes behind the cut. -/
theorem step_within {m : Mode} {behind : List UInt8}
    (h : (step style m behind b (front ++ rest)).width ≤ front.length + 1) :
    step style m behind b front = step style m behind b (front ++ rest) := by
  by_cases hb : (b == 0x0a) = true
  · simp only [step, if_pos hb]
  · simp only [step, if_neg hb] at h ⊢
    cases m with
    | lineComment => rfl
    | block depth => exact stepBlock_within h
    | quoted => exact stepQuoted_within h
    | rawQuoted hashes => exact stepRaw_within h
    | code => exact stepCode_within h

/-! ### The pass over two texts -/

/-- What a turn owes beyond a stretch of bytes, it still owes behind them. -/
theorem owed_stateAfter (h : front.length ≤ s.owed) :
    (stateAfter style s front rest).owed = s.owed - front.length := by
  induction front generalizing s with
  | nil => rfl
  | cons b front ih =>
    rw [List.length_cons] at h ⊢
    rw [stateAfter, if_neg (by omega), ih (by simp only [State.pass]; omega)]
    simp only [State.pass]
    omega

/-- A pass that stands at a cut has taken the turns that it takes without the bytes behind it. -/
theorem turnsFrom_within (h : (stateAfter style s front rest).owed = 0) :
    turnsFrom style s front = turnsOver style s front rest := by
  induction front generalizing s with
  | nil => rfl
  | cons b front ih =>
    rw [stateAfter] at h
    rw [turnsFrom_cons, turnsOver]
    split at h
    next ho =>
      have hwidth : (step style s.mode s.behind b (front ++ rest)).width ≤ front.length + 1 := by
        refine Nat.le_of_not_lt fun hlt => ?_
        rw [owed_stateAfter (by simp only [State.take]; omega)] at h
        simp only [State.take] at h
        omega
      rw [if_pos ho, if_pos ho, step_within hwidth, ih h]
    next ho => rw [if_neg ho, if_neg ho, ih h]

/-- Two texts, of which the first one ends with a newline, have the code lines of both, if the pass
over them stands between them outside comments and literals and has counted every newline up to
there. The last line of the first text is empty and becomes the first one of the second text. -/
theorem codeLines_append (style : CommentStyle) (a b : Text) (hline : a.getLast? = some '\n')
    (hscan : Settles style a b) :
    codeLines style (a ++ b) ((a ++ b).count '\n' + 1) =
      (codeLines style a (a.count '\n' + 1)).pop ++ codeLines style b (b.count '\n' + 1) := by
  obtain ⟨front, hfront, hover, hall⟩ := hscan.markedLines hline
  have hmarked : markedLines (turns style a) = front := by
    rw [hover, turns, turnsFrom_within hscan.owed]
  simp only [codeLines, hall, hmarked, List.count_append]
  apply Array.ext_getElem?
  intro k
  rw [Array.getElem?_append, Array.size_pop, size_flags, Nat.add_sub_cancel]
  by_cases hk : k < a.count '\n'
  · have hback : k ∉ (markedLines (turns style b)).map (· + a.count '\n') := by
      rw [List.mem_map]
      rintro ⟨n, -, rfl⟩
      omega
    rw [if_pos hk, Array.getElem?_pop, size_flags, if_pos (by omega), getElem?_flags (by omega),
      getElem?_flags (by omega)]
    simp only [List.mem_append, hback, or_false]
  · have hnot : k ∉ front := fun hmem => hk (hfront k hmem)
    rw [if_neg hk]
    by_cases hlast : k < a.count '\n' + b.count '\n' + 1
    · rw [getElem?_flags hlast, getElem?_flags (by omega)]
      simp only [List.mem_append, hnot, false_or, List.mem_map]
      congr 2
      rw [eq_iff_iff]
      constructor
      · rintro ⟨n, hn, rfl⟩
        rwa [Nat.add_sub_cancel]
      · intro hn
        exact ⟨_, hn, by omega⟩
    · rw [Array.getElem?_eq_none (by rw [size_flags]; omega),
        Array.getElem?_eq_none (by rw [size_flags]; omega)]

/-- A style whose line comments open with two dashes. -/
def dashes : CommentStyle := ⟨"--".toList, "(-".toList, "-)".toList, true, true, true⟩

/-- A line with a quote and a backslash close to its end. -/
def slashed : Text := "x '\\\n".toList

/-- A raw string that begins its line, and a comment. -/
def quotedDashes : Text := "r\"--\"\n-- y".toList

theorem codeLines_append_dashes : slashed.getLast? = some '\n' ∧
    Settles dashes slashed quotedDashes ∧
    codeLines dashes (slashed ++ quotedDashes) 3 = #[true, true, false] ∧
      codeLines dashes (slashed ++ quotedDashes) 3 =
        (codeLines dashes slashed 2).pop ++ codeLines dashes quotedDashes 2 := by
  have hscan : Settles dashes slashed quotedDashes := ⟨by decide, by decide, by decide⟩
  exact ⟨by decide, hscan, by decide,
    codeLines_append dashes slashed quotedDashes (by decide) hscan⟩

end ClosureLint.Comment
