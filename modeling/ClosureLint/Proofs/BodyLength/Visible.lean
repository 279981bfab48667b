import ClosureLint.Proofs.Rust.Legible
import ClosureLint.Proofs.Rust.Matched
import ClosureLint.Proofs.Rust.Places
import ClosureLint.Proofs.Source.Measure

/-! Closure bodies are seen by the comment pass. If a source is legible up to the end of a body,
then the line in which the body ends carries code, and so does the one in which it begins, unless
that line holds nothing but documentation, which is a comment for the pass although it is a part of
the body. So the body has code lines. -/

namespace ClosureLint

namespace Rust

open Comment (markedLines turns)

theorem text_of_token {t : Text} {tokens : Array Token}
    (htokens : tokenize (Preamble.split t).rest = .ok tokens) {i : Nat} (hi : i < tokens.size) :
    ∃ a text b, t = a ++ text ++ b ∧ a.byteLength = (Preamble.split t).length + tokens[i].lo ∧
      (a ++ text).byteLength = (Preamble.split t).length + tokens[i].hi ∧
        (∃ k, partAt? (text ++ b) = some (some tokens[i].lexeme, k)) ∧
          ∀ n, Legible t n → (Preamble.split t).length + tokens[i].hi ≤ n →
            tokens[i].lexeme.isDoc = false → a.count '\n' ∈ markedLines (turns .rust t) ∧
              (a ++ text).count '\n' ∈ markedLines (turns .rust t) := by
  obtain ⟨front, before, p, after, ht, hcount, hlength, hcode, hparts, hlexeme, hbegin, hend⟩ :=
    source_of_token htokens hi
  refine ⟨front ++ written before, p.text, written after, ht, hbegin, hend,
    hlexeme ▸ hparts.partAt, fun n hlegible hle hdoc => ?_⟩
  have hsplit : before ++ p :: after = (before ++ [p]) ++ after := by simp
  rw [hsplit] at hparts hcode
  have hmarked := hlegible.tokensMarked hcode hparts (by
    rw [← hend] at hle
    simp only [written_append, written_cons, written_nil, List.append_nil,
      Text.byteLength_append] at hle ⊢
    omega)
  obtain ⟨hfirst, u, c, hu, hc, hlast⟩ :=
    hmarked before p [] rfl (Part.isToken_of_isDoc hlexeme hdoc)
  rw [hu]
  simp only [List.count_append, hcount, Nat.zero_add, List.count_singleton, beq_iff_eq, if_neg hc,
    Nat.add_zero] at hfirst hlast ⊢
  exact ⟨hfirst, hlast⟩

end Rust

namespace BodyLength

open Comment (markedLines turns)
open Rust (Legible)

/-- Whether the body of a closure begins with documentation. -/
def BeginsWithDoc (t : Text) (closure : Closure) : Prop :=
  ∃ a b, t = a ++ b ∧ a.byteLength = closure.body.offset ∧ (Rust.doc? b).isSome

/-- Whether a token other than documentation begins in a line. -/
def HoldsToken (t : Text) (line : Nat) : Prop :=
  ∃ tokens, Rust.tokenize (Rust.Preamble.split t).rest = .ok tokens ∧
    ∃ token ∈ tokens, token.lexeme.isDoc = false ∧
      (SourceText.ofText t .rust).lineOf? ((Rust.Preamble.split t).length + token.lo) = some line

/-- A line in which a token begins is marked, if the source is legible up to the end of a token in a
later line. -/
theorem HoldsToken.marked {t a b : Text} {line : Nat} (h : HoldsToken t line)
    {tokens : Array Rust.Token}
    (htokens : Rust.tokenize (Rust.Preamble.split t).rest = .ok tokens) {j : Nat}
    (hj : j < tokens.size)
    (hlegible : Legible t ((Rust.Preamble.split t).length + tokens[j].hi)) (ht : t = a ++ b)
    (hend : a.byteLength = (Rust.Preamble.split t).length + tokens[j].hi)
    (hlt : line < a.count '\n') : line ∈ markedLines (turns .rust t) := by
  obtain ⟨tokens', htokens', token, htoken, hdoc, hline⟩ := h
  obtain rfl := Except.ok.inj (htokens.symm.trans htokens')
  obtain ⟨i, hi, rfl⟩ := Array.getElem_of_mem htoken
  obtain ⟨c, d, hcd, hoffset, rfl⟩ := SourceText.lineOf?_eq_some_iff.mp hline
  have hhi : tokens[i].hi ≤ tokens[j].hi := by
    rcases Nat.lt_trichotomy i j with hij | rfl | hij
    · have := Rust.hi_le_lo htokens hij hj
      have := Rust.lo_lt_hi htokens hj
      omega
    · exact Nat.le_refl _
    · have := Rust.hi_le_lo htokens hij hi
      obtain ⟨e, rfl, -⟩ := Text.exists_append_of_byteLength_le (ht.symm.trans hcd) (by omega)
      rw [List.count_append] at hlt
      omega
  obtain ⟨c', text, d', ht', hbegin, -, -, hmarked⟩ := Rust.text_of_token htokens hi
  rw [List.append_assoc] at ht'
  obtain ⟨rfl, -⟩ :=
    Text.append_inj_of_byteLength (hcd.symm.trans ht') (hoffset.symm.trans hbegin.symm)
  exact (hmarked _ hlegible (Nat.add_le_add_left hhi _) hdoc).1

/-- A body runs from one token to another one, which is no documentation. -/
theorem tokens_of_body {t : Text} {closures : List Closure} (h : Rust.closures t = .ok closures)
    {closure : Closure} (hmem : closure ∈ closures) :
    ∃ tokens, Rust.tokenize (Rust.Preamble.split t).rest = .ok tokens ∧
      ∃ (i j : Nat) (hi : i < tokens.size) (hj : j < tokens.size), i ≤ j ∧
        tokens[j].lexeme.isDoc = false ∧ closure.body =
          ⟨(Rust.Preamble.split t).length + tokens[i].lo, tokens[j].hi - tokens[i].lo⟩ := by
  obtain ⟨tokens, ranges, htokens, hranges, rfl⟩ := Rust.closures_eq_ok_iff.mp h
  obtain ⟨r, hr, rfl⟩ := List.mem_map.mp hmem
  obtain ⟨j, hstop, last, hlast, hdoc⟩ :=
    Rust.firmAt_stop (Rust.matched_tokenize htokens) hranges hr
  obtain ⟨hj, rfl⟩ := Array.getElem?_eq_some_iff.mp hlast
  have hij : r.bodyStart ≤ j := by
    have := r.bodyStart_lt
    omega
  have hi : r.bodyStart < tokens.size := Nat.lt_of_le_of_lt hij hj
  refine ⟨tokens, htokens, r.bodyStart, j, hi, hj, hij, hdoc, ?_⟩
  rw [Rust.closureAt, hstop, Rust.firstByte_eq hi, Rust.lastByte_succ hj]

theorem holdsToken_first {t a text b : Text} {closure : Closure} {tokens : Array Rust.Token}
    (htokens : Rust.tokenize (Rust.Preamble.split t).rest = .ok tokens) {i n : Nat}
    (hi : i < tokens.size) (hbody : closure.body.offset =
      (Rust.Preamble.split t).length + tokens[i].lo) (ht : t = a ++ text ++ b)
    (hbegin : a.byteLength = (Rust.Preamble.split t).length + tokens[i].lo)
    (hpart : Rust.partAt? (text ++ b) = some (some tokens[i].lexeme, n))
    (hnot : ¬ BeginsWithDoc t closure) : HoldsToken t (a.count '\n') := by
  rw [List.append_assoc] at ht
  refine ⟨tokens, htokens, tokens[i], Array.getElem_mem hi, ?_,
    SourceText.lineOf?_eq_some_iff.mpr ⟨a, text ++ b, ht, hbegin.symm, rfl⟩⟩
  cases hlexeme : tokens[i].lexeme with
  | doc inner =>
    rw [hlexeme] at hpart
    exact absurd ⟨a, text ++ b, ht, hbegin.trans hbody.symm, Rust.doc?_of_partAt? hpart⟩ hnot
  | _ => rfl

/-- The lines of a body in a source that is legible up to its end: the last one is marked, and so is
the first one, unless it holds nothing but documentation. -/
theorem lines_of_body {t : Text} (hbound : t.byteLength < offsetBound) {closures : List Closure}
    (hclosures : Rust.closures t = .ok closures) {closure : Closure} (hmem : closure ∈ closures)
    (h : Legible t (closure.body.offset + closure.body.length)) :
    ∃ range, (SourceText.ofText t .rust).lineRange? closure.body = some range ∧
      range.stop ≤ t.count '\n' ∧ range.stop ∈ markedLines (turns .rust t) ∧
        ((BeginsWithDoc t closure → HoldsToken t range.start) →
          range.start ∈ markedLines (turns .rust t)) := by
  obtain ⟨tokens, htokens, i, j, hi, hj, hij, hdoc, hbody⟩ := tokens_of_body hclosures hmem
  have hbytes := Rust.lo_lt_hi_of_le htokens hij hj
  obtain ⟨a, text, b, ht, hbegin, -, ⟨n, hpart⟩, -⟩ := Rust.text_of_token htokens hi
  obtain ⟨a', text', b', ht', -, hend, -, hmarked⟩ := Rust.text_of_token htokens hj
  obtain ⟨body, happend, -⟩ := Text.exists_append_of_byteLength_le
    ((List.append_assoc _ _ _).symm.trans (ht.symm.trans ht')) (by omega)
  rw [happend] at ht' hend hmarked
  have hlength : body.byteLength = tokens[j].hi - tokens[i].lo := by
    rw [Text.byteLength_append] at hend
    omega
  have hstop : closure.body.offset + closure.body.length =
      (Rust.Preamble.split t).length + tokens[j].hi := by
    rw [hbody, ← hend, Text.byteLength_append, hbegin, hlength]
  rw [hstop] at h
  have hle : a.count '\n' ≤ (a ++ body).count '\n' := by
    rw [List.count_append]
    omega
  have hlast := (hmarked _ h (Nat.le_refl _) hdoc).2
  refine ⟨⟨_, _, hle⟩, SourceText.lineRange?_eq_some_iff.mpr
    ⟨a, body, b', ht', by rw [hbody, hbegin, hlength], ?_, rfl, rfl⟩, ?_, hlast, fun hfirst => ?_⟩
  · rw [ht', Text.byteLength_append] at hbound
    exact Nat.lt_of_le_of_lt (Nat.le_add_right _ _) hbound
  · show (a ++ body).count '\n' ≤ t.count '\n'
    simp only [ht', List.count_append]
    omega
  · -- In a body of one line, its last token marks the first line too.
    rcases Nat.eq_or_lt_of_le hle with heq | hlt
    · show a.count '\n' ∈ markedLines (turns .rust t)
      rw [heq]
      exact hlast
    have hholds : HoldsToken t (a.count '\n') := Classical.byCases hfirst
      (holdsToken_first htokens hi (congrArg ByteSpan.offset hbody) ht hbegin hpart)
    exact hholds.marked htokens hj h ht' hend hlt

/-- A body has as many code lines as marked ones in its range: at least one, if its last line is
marked, and at least two, if its first line is another one and is marked too. -/
theorem effectiveLines_pos {t : Text} {range : LineRange} (hle : range.stop ≤ t.count '\n')
    (hstop : range.stop ∈ markedLines (turns .rust t)) :
    1 ≤ (SourceText.ofText t .rust).effectiveLines range := by
  have := range.start_le_stop
  rw [SourceText.effectiveLines_eq hle]
  refine List.countP_pos_iff.mpr ⟨range.stop, ?_, decide_eq_true hstop⟩
  rw [List.mem_range'_1]
  omega

theorem two_le_effectiveLines {t : Text} {range : LineRange} (hle : range.stop ≤ t.count '\n')
    (hstart : range.start ∈ markedLines (turns .rust t))
    (hstop : range.stop ∈ markedLines (turns .rust t)) (hlt : range.start < range.stop) :
    2 ≤ (SourceText.ofText t .rust).effectiveLines range := by
  obtain ⟨n, hn⟩ : ∃ n, range.stop + 1 - range.start = n + 1 := ⟨range.stop - range.start, by omega⟩
  have hrest : 0 < (List.range' (range.start + 1) n).countP fun k =>
      decide (k ∈ markedLines (turns .rust t)) := by
    refine List.countP_pos_iff.mpr ⟨range.stop, ?_, decide_eq_true hstop⟩
    rw [List.mem_range'_1]
    omega
  rw [SourceText.effectiveLines_eq hle, hn, List.range'_succ, List.countP_cons,
    if_pos (decide_eq_true hstart)]
  exact Nat.succ_le_succ hrest

theorem codeLines_of_marked {t : Text} {k : Nat} (hk : k ≤ t.count '\n')
    (h : k ∈ markedLines (turns .rust t)) :
    (SourceText.ofText t .rust).codeLines[k]? = some true := by
  rw [SourceText.getElem?_codeLines hk, decide_eq_true h]

/-- A limit of no lines is passed by every body with code lines. -/
theorem exists_violation {file : SourceText} {closure : Closure} {range : LineRange}
    (hrange : file.lineRange? closure.body = some range) (hpos : 1 ≤ file.effectiveLines range)
    {thresholds : List Threshold} {threshold : Threshold} (hmem : threshold ∈ thresholds)
    (hzero : threshold.maxLines = 0) : ∃ v ∈ evaluate file closure thresholds,
      v.rule = identifier ∧ v.severity = threshold.severity ∧ v.offset = closure.offset := by
  rw [evaluate_eq thresholds hrange, findingsAt]
  obtain ⟨guideline, hguideline⟩ :=
    Option.isSome_iff_exists.mp (guideline?_isSome (List.ne_nil_of_mem hmem))
  rw [hguideline]
  refine ⟨_, List.mem_map_of_mem (List.mem_filter.mpr ⟨hmem, ?_⟩), rfl, rfl, rfl⟩
  rw [hzero]
  exact decide_eq_true hpos

/-- The comment pass hides no closure body in a source that is legible up to the body's end. The
body's line range resolves; its last line is flagged, and so is its first line, unless it holds
nothing but documentation; so the body has a code line, and another one where it spans several lines
and the first one is flagged; and a threshold of no lines is always passed. -/
theorem body_visible (t : Text) (hbound : t.byteLength < offsetBound) (closures : List Closure)
    (hclosures : Rust.closures t = .ok closures) (closure : Closure) (hmem : closure ∈ closures)
    (hlegible : Legible t (closure.body.offset + closure.body.length)) :
    ∃ range, (SourceText.ofText t .rust).lineRange? closure.body = some range ∧
      (SourceText.ofText t .rust).codeLines[range.stop]? = some true ∧
      ((BeginsWithDoc t closure → HoldsToken t range.start) →
        (SourceText.ofText t .rust).codeLines[range.start]? = some true) ∧
      1 ≤ (SourceText.ofText t .rust).effectiveLines range ∧
      ((BeginsWithDoc t closure → HoldsToken t range.start) → range.start < range.stop →
        2 ≤ (SourceText.ofText t .rust).effectiveLines range) ∧
      ∀ thresholds, ∀ threshold ∈ thresholds, threshold.maxLines = 0 →
        ∃ v ∈ evaluate (SourceText.ofText t .rust) closure thresholds,
          v.rule = identifier ∧ v.severity = threshold.severity ∧ v.offset = closure.offset := by
  obtain ⟨range, hrange, hle, hstop, hstart⟩ := lines_of_body hbound hclosures hmem hlegible
  refine ⟨range, hrange, codeLines_of_marked hle hstop,
    fun h => codeLines_of_marked (Nat.le_trans range.start_le_stop hle) (hstart h),
    effectiveLines_pos hle hstop, fun h => two_le_effectiveLines hle (hstart h) hstop, ?_⟩
  exact fun thresholds threshold hthreshold =>
    exists_violation hrange (effectiveLines_pos hle hstop) hthreshold

/-- A comment, and a closure whose body is a string, both with text that looks like other things. -/
def quoting : Text := "// '''\nfn f() \x7b\n||\n\"/*'''\"\n\x7d".toList

theorem body_visible_quoting : quoting.byteLength < offsetBound ∧
    Rust.closures quoting = .ok [⟨16, ⟨19, 7⟩⟩] ∧ Legible quoting (19 + 7) ∧
      ∃ range, (SourceText.ofText quoting .rust).lineRange? ⟨19, 7⟩ = some range ∧
        (SourceText.ofText quoting .rust).codeLines[range.stop]? = some true ∧
        ((BeginsWithDoc quoting ⟨16, ⟨19, 7⟩⟩ → HoldsToken quoting range.start) →
          (SourceText.ofText quoting .rust).codeLines[range.start]? = some true) ∧
        1 ≤ (SourceText.ofText quoting .rust).effectiveLines range ∧
        ((BeginsWithDoc quoting ⟨16, ⟨19, 7⟩⟩ → HoldsToken quoting range.start) →
          range.start < range.stop → 2 ≤ (SourceText.ofText quoting .rust).effectiveLines range) ∧
        ∀ thresholds, ∀ threshold ∈ thresholds, threshold.maxLines = 0 →
          ∃ v ∈ evaluate (SourceText.ofText quoting .rust) ⟨16, ⟨19, 7⟩⟩ thresholds,
            v.rule = identifier ∧ v.severity = threshold.severity ∧ v.offset = 16 := by
  have hclosures : Rust.closures quoting = .ok [⟨16, ⟨19, 7⟩⟩] := by decide +kernel
  have hharmless :
      (Rust.partsOf? quoting.length quoting).any (·.all Rust.Part.isHarmless) = true := by
    decide +kernel
  have hlegible : Legible quoting (19 + 7) := by
    obtain ⟨parts, hparts, hall⟩ := (Option.any_eq_true _ _).mp hharmless
    exact Rust.legible_of_isHarmless (by decide) (by decide) (Rust.fallsInto_of_partsOf? hparts)
      (List.all_eq_true.mp hall) _
  exact ⟨by decide, hclosures, hlegible,
    body_visible quoting (by decide) _ hclosures _ (List.mem_singleton_self _) hlegible⟩

/-- Behind a raw C string with a backslash at its end, the pass takes the next string for a comment,
and the second line for a part of it. -/
example : (SourceText.ofText "fn f() \x7b g(cr\"\\\", \"/*\");\nlet h = || 1; \x7d".toList
    .rust).codeLines = #[true, false] := by decide +kernel

/-- A closure whose body is a line of documentation and a line of code. -/
def documented : Text := "fn f() \x7b let g = |x|\n/// d\nx; \x7d".toList

/-- The line of documentation is no code line, although the body begins in it. -/
theorem body_behind_doc : Rust.closures documented = .ok [⟨17, ⟨21, 7⟩⟩] ∧
    (SourceText.ofText documented .rust).lineRange? ⟨21, 7⟩ = some ⟨1, 2, by decide⟩ ∧
      (SourceText.ofText documented .rust).codeLines[1]? = some false ∧
        (SourceText.ofText documented .rust).effectiveLines ⟨1, 2, by decide⟩ = 1 ∧
          evaluate (SourceText.ofText documented .rust) ⟨17, ⟨21, 7⟩⟩ [⟨.warning, 1⟩] = [] := by
  refine ⟨by decide +kernel, by decide +kernel, by decide +kernel, by decide +kernel,
    by decide +kernel⟩

end BodyLength

end ClosureLint
