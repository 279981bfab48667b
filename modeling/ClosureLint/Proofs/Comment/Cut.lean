import ClosureLint.Proofs.Comment.Restart

/-! The lines before a cut. Under the conventions of Rust a turn looks ahead for a second character
of a marker, for the hashes and the quote of a raw string, and for the quote that ends a character
literal. A newline ends each of these but the last one, and that one is at most twelve bytes ahead
of a backslash, so the text behind a newline is not seen by the turns in front of it if no backslash
is that near. -/

namespace ClosureLint.Comment

/-- Every backslash has at least 12 bytes behind it. -/
def SlashesFar (t : Text) : Prop := ∀ p q, t.utf8 = p ++ 0x5c :: q → 12 ≤ q.length

theorem slashesFar_of_not_mem {t : Text} (h : (0x5c : UInt8) ∉ t.utf8.reverse.take 12) :
    SlashesFar t := by
  intro p q hpq
  refine Nat.le_of_not_lt fun hlt => h ?_
  rw [hpq, List.reverse_append, List.reverse_cons, List.append_assoc, List.take_append,
    List.mem_append]
  refine .inr ?_
  obtain ⟨n, hn⟩ : ∃ n, 12 - q.reverse.length = n + 1 := ⟨11 - q.length, by
    rw [List.length_reverse]
    omega⟩
  rw [hn]
  simp

theorem SlashesFar.of_append {t u : Text} (h : SlashesFar (t ++ u)) : SlashesFar u := by
  intro p q hpq
  refine h (t.utf8 ++ p) q ?_
  rw [Text.utf8_append, hpq, List.append_assoc]

theorem SlashesFar.of_cons {c : Char} {u : Text} (h : SlashesFar (c :: u)) : SlashesFar u :=
  SlashesFar.of_append (t := [c]) h

theorem getLast?_of_cons {c : Char} {u : Text} (hu : u ≠ []) (h : (c :: u).getLast? = some '\n') :
    u.getLast? = some '\n' := by
  rwa [List.getLast?_cons_of_ne_nil hu] at h

section Stable

variable {u : Text} (hend : u.getLast? = some '\n')

include hend

theorem newline_mem : (0x0a : UInt8) ∈ u.utf8 :=
  (Text.mem_utf8 (c := '\n') (by decide) u).mpr (List.mem_of_getLast? hend)

theorem head?_stable (r : Text) : (Text.utf8 (u ++ r)).head? = u.utf8.head? := by
  have hmem := newline_mem hend
  rw [Text.utf8_append]
  cases h : u.utf8 with
  | nil =>
    rw [h] at hmem
    cases hmem
  | cons b bytes => rfl

theorem rawHashes?_stable (behind : List UInt8) (b : UInt8) (r : Text) :
    rawHashes? behind b (Text.utf8 (u ++ r)) = rawHashes? behind b u.utf8 := by
  have hstop : ∀ bytes rest : List UInt8, 0x0a ∈ bytes →
      (bytes ++ rest).takeWhile (· == 0x23) = bytes.takeWhile (· == 0x23) ∧
        (bytes.takeWhile (· == 0x23)).length < bytes.length := by
    intro bytes rest hmem
    induction bytes with
    | nil => cases hmem
    | cons x bytes ih =>
      by_cases hx : x = 0x23
      · subst hx
        have hmem : (0x0a : UInt8) ∈ bytes := by simpa using hmem
        simpa using ih hmem
      · simp [hx]
  obtain ⟨htake, hlen⟩ := hstop u.utf8 r.utf8 (newline_mem hend)
  rw [rawHashes?, rawHashes?, Text.utf8_append, htake]
  simp only
  rw [List.getElem?_append_left hlen]

theorem charLiteralWidth?_stable (hslash : SlashesFar u) (b : UInt8) (r : Text) :
    charLiteralWidth? b (Text.utf8 (u ++ r)) = charLiteralWidth? b u.utf8 := by
  by_cases hb : b = 0x27
  · subst hb
    cases u with
    | nil => cases hend
    | cons c t =>
      by_cases hc : c = '\\'
      · subst hc
        have hfar : 12 ≤ (Text.utf8 t).length :=
          hslash [] (Text.utf8 t) (Text.utf8_cons_ascii (c := '\\') (by decide) t)
        rw [List.cons_append, Text.utf8_cons_ascii (by decide), Text.utf8_cons_ascii (by decide),
          Text.utf8_append]
        cases ht : Text.utf8 t with
        | nil =>
          rw [ht] at hfar
          cases hfar
        | cons x xs =>
          rw [ht, List.length_cons] at hfar
          show (((xs ++ r.utf8).take escapeReach).findIdx? (· == 0x27)).map (· + 4) =
            ((xs.take escapeReach).findIdx? (· == 0x27)).map (· + 4)
          rw [List.take_append_of_le_length (by rw [escapeReach]; omega)]
      by_cases hq : c = '\''
      · subst hq
        rfl
      by_cases hn : c = '\n'
      · subst hn
        rfl
      have ht : t ≠ [] := by
        rintro rfl
        exact hn (Option.some.inj hend)
      rw [List.cons_append, charLiteralWidth?_plain hq hc hn, charLiteralWidth?_plain hq hc hn,
        List.head?_append, List.head?_eq_some_head ht, Option.some_or]
  · simp [charLiteralWidth?, hb]

/-- A turn in front of the cut does not see the text behind it. -/
theorem step_stable (hslash : SlashesFar u) (m : Mode) (behind : List UInt8) (b : UInt8)
    (r : Text) :
    step .rust m behind b (Text.utf8 (u ++ r)) = step .rust m behind b u.utf8 := by
  have hhead := head?_stable hend r
  cases m with
  | code =>
    have hraw := rawHashes?_stable hend behind b r
    have hchar := charLiteralWidth?_stable hend hslash b r
    simp only [step, stepCode, occurs_line, occurs_blockOpen, hhead, hraw, hchar]
  | lineComment => rfl
  | block depth => simp only [step, stepBlock, occurs_blockOpen, occurs_blockClose, hhead]
  | quoted => simp only [step, stepQuoted, hhead]
  | rawQuoted hashes =>
    have hhashes : ∀ (n : Nat) (bytes rest : List UInt8), 0x0a ∈ bytes →
        (List.replicate n (0x23 : UInt8)).isPrefixOf (bytes ++ rest) =
          (List.replicate n 0x23).isPrefixOf bytes := by
      intro n bytes rest hmem
      induction bytes generalizing n with
      | nil => cases hmem
      | cons x bytes ih =>
        cases n with
        | zero => rfl
        | succ n =>
          rw [List.replicate_succ, List.cons_append, List.isPrefixOf_cons_cons,
            List.isPrefixOf_cons_cons]
          by_cases hx : x = 0x23
          · subst hx
            rw [ih n (by simpa using hmem)]
          · rw [beq_false_of_ne (Ne.symm hx), Bool.false_and, Bool.false_and]
    have := hhashes hashes u.utf8 r.utf8 (newline_mem hend)
    simp only [step, stepRaw, Text.utf8_append, this]

end Stable

theorem high_stable {bytes : List UInt8} (h : ∀ b ∈ bytes, 0x80 ≤ b) (s : State)
    (r r' : List UInt8) : stateAfter .rust s bytes r = stateAfter .rust s bytes r' ∧
      turnsOver .rust s bytes r = turnsOver .rust s bytes r' := by
  induction bytes generalizing s with
  | nil => exact ⟨rfl, rfl⟩
  | cons b bytes ih =>
    have hb := h b (by simp)
    have htail := ih fun x hx => h x (by simp [hx])
    simp only [stateAfter, turnsOver, step_high hb]
    split
    · exact ⟨(htail _).1, by rw [(htail _).2]⟩
    · exact htail _

/-- The pass takes the lines in front of a cut alike, whatever is behind it. -/
theorem cut_stable {a : Text} (hend : a.getLast? = some '\n') (hslash : SlashesFar a) (s : State)
    (r r' : Text) : stateAfter .rust s a.utf8 r.utf8 = stateAfter .rust s a.utf8 r'.utf8 ∧
      turnsOver .rust s a.utf8 r.utf8 = turnsOver .rust s a.utf8 r'.utf8 := by
  induction a generalizing s with
  | nil => cases hend
  | cons c u ih =>
    by_cases hu : u = []
    · subst hu
      obtain rfl : c = '\n' := Option.some.inj hend
      have hutf : Text.utf8 ['\n'] = [0x0a] := rfl
      simp only [hutf, stateAfter, turnsOver, step_newline, and_self]
    have hend := getLast?_of_cons hu hend
    have hslash := hslash.of_cons
    by_cases hc : c.toNat < 0x80
    · have hstep : ∀ t : Text,
          step .rust s.mode s.behind (UInt8.ofNat c.toNat) (Text.utf8 u ++ t.utf8) =
            step .rust s.mode s.behind (UInt8.ofNat c.toNat) (Text.utf8 u) := by
        intro t
        rw [← Text.utf8_append]
        exact step_stable hend hslash _ _ _ t
      simp only [Text.utf8_cons_ascii hc, stateAfter, turnsOver, hstep]
      split
      · exact ⟨(ih hend hslash _).1, by rw [(ih hend hslash _).2]⟩
      · exact ih hend hslash _
    · have hhigh := high_stable (fun b hb => Text.encode_high (c := c) (by omega) hb) s
        (Text.utf8 u ++ r.utf8) (Text.utf8 u ++ r'.utf8)
      have htail := ih hend hslash
        (stateAfter .rust s (String.utf8EncodeChar c) (Text.utf8 u ++ r'.utf8))
      rw [Text.utf8_cons, stateAfter_append, stateAfter_append, turnsOver_append, turnsOver_append,
        hhigh.1, hhigh.2]
      exact ⟨htail.1, by rw [htail.2]⟩

end ClosureLint.Comment
