import ClosureLint.Proofs.Comment.Restart
import ClosureLint.Proofs.Rules
import ClosureLint.Proofs.Rust.Places
import ClosureLint.Proofs.Source.Measure
import Mathlib

/-! A line for the interpreter in front of a source. The front end takes it off, so the closures
only move; but the comment pass reads it as if it were code, so a comment opener or a quote in it
may hide what follows. Findings only move with the line where the pass counts the same code lines in
every body as without it, and it does if it is outside comments and literals behind the line. -/

namespace ClosureLint

/-- The same finding in a text with `n` more bytes in front. -/
def Violation.shift (n : Nat) (v : Violation) : Violation := { v with offset := n + v.offset }

variable {l s : Text}

namespace SourceText

/-- A line in front of a text moves the spans, but their line ranges stay as they are, since the
newline is in the text. -/
theorem lineRange?_behind {style : CommentStyle} {t : Text} (hl : '\n' ∉ l)
    (hlength : (l ++ t).byteLength < offsetBound) (span : ByteSpan) :
    (ofText (l ++ t) style).lineRange? ⟨l.byteLength + span.offset, span.length⟩ =
      (ofText t style).lineRange? span := by
  have hcount : l.count '\n' = 0 := List.count_eq_zero.mpr hl
  refine Option.ext fun range => ?_
  rw [lineRange?_eq_some_iff, lineRange?_eq_some_iff]
  constructor
  · rintro ⟨a, b, c, htext, hspan, -, hstart, hstop⟩
    obtain ⟨hoffset, hlen⟩ := ByteSpan.mk.inj hspan
    obtain ⟨a, rfl, rfl⟩ := Text.exists_append_of_byteLength_le
      (show l ++ t = a ++ (b ++ c) by rw [htext, List.append_assoc]) (by omega)
    simp only [List.count_append, hcount, Nat.zero_add] at hstart hstop
    simp only [Text.byteLength_append] at hoffset hlength
    refine ⟨a, b, c, by rw [List.append_assoc], ?_, ?_, hstart, ?_⟩
    · cases span
      simp only [ByteSpan.mk.injEq]
      simp only at hoffset hlen
      omega
    · rw [Text.byteLength_append]
      omega
    · rw [hstop, List.count_append]
  · rintro ⟨a, b, c, rfl, rfl, -, hstart, hstop⟩
    refine ⟨l ++ a, b, c, by simp, ?_, ?_, ?_, ?_⟩
    · rw [Text.byteLength_append]
    · simp only [Text.byteLength_append] at hlength ⊢
      omega
    · rw [hstart, List.count_append, hcount, Nat.zero_add]
    · rw [hstop]
      simp only [List.count_append, hcount, Nat.zero_add]

end SourceText

namespace Comment

/-- Behind some lines at whose end the pass settles, it marks the lines that it would mark if they
came first. -/
theorem Settles.mem_markedLines {style : CommentStyle} {a b : Text} (h : Settles style a b)
    (hend : a.getLast? = some '\n') (n : Nat) :
    n + a.count '\n' ∈ Comment.markedLines (turns style (a ++ b)) ↔
      n ∈ Comment.markedLines (turns style b) := by
  obtain ⟨front, hfront, -, hmarked⟩ := h.markedLines hend
  rw [hmarked, List.mem_append, List.mem_map]
  constructor
  · rintro (hn | ⟨k, hk, hn⟩)
    · have := hfront _ hn
      omega
    · obtain rfl : k = n := by omega
      exact hk
  · exact fun hn => .inr ⟨n, hn, rfl⟩

end Comment

namespace BodyLength

open Comment (Settles)

/-- In every closure body of a source, a text with one more line in front has as many code lines as
the source. -/
def CountsAgree (l s : Text) : Prop :=
  ∀ closures, Rust.closures ('\n' :: s) = .ok closures → ∀ closure ∈ closures, ∀ range,
    (SourceText.ofText ('\n' :: s) .rust).lineRange? closure.body = some range →
      (SourceText.ofText (l ++ '\n' :: s) .rust).effectiveLines range =
        (SourceText.ofText ('\n' :: s) .rust).effectiveLines range

/-- A body begins behind the newline that the source begins with. -/
theorem start_of_newline {closures : List Closure} (h : Rust.closures ('\n' :: s) = .ok closures)
    {closure : Closure} (hclosure : closure ∈ closures) {range : LineRange}
    (hrange : (SourceText.ofText ('\n' :: s) .rust).lineRange? closure.body = some range) :
    1 ≤ range.start := by
  obtain ⟨tokens, ranges, htokens, hranges, rfl⟩ := Rust.closures_eq_ok_iff.mp h
  obtain ⟨r, hr, rfl⟩ := List.mem_map.mp hclosure
  have hsize : r.bodyStart < tokens.size :=
    Nat.lt_of_lt_of_le r.bodyStart_lt ((Rust.closureRanges_ordered hranges).within r hr).2
  have hlo := Rust.lo_of_tokenize_newline htokens (Array.getElem_mem hsize)
  obtain ⟨a, b, c, htext, hspan, -, hstart, -⟩ := SourceText.lineRange?_eq_some_iff.mp hrange
  have hoffset : 0 + Rust.firstByte tokens r.bodyStart = a.byteLength := (ByteSpan.mk.inj hspan).1
  rw [Rust.firstByte_eq hsize] at hoffset
  cases a with
  | nil =>
    rw [Text.byteLength_nil] at hoffset
    omega
  | cons d a =>
    obtain rfl : '\n' = d := (List.cons.inj htext).1
    rw [hstart, List.count_cons_self]
    omega

/-- Where the pass settles behind a line, it counts the code lines of bodies as it would without the
line. -/
theorem countsAgree_of_settles (hl : '\n' ∉ l) (h : Settles .rust (l ++ ['\n']) s) :
    CountsAgree l s := by
  intro closures hclosures closure hmem range hrange
  have hstart := start_of_newline hclosures hmem hrange
  have hcount : l.count '\n' = 0 := List.count_eq_zero.mpr hl
  have hsettles : Settles .rust ['\n'] s := ⟨rfl, rfl, rfl⟩
  have hmarked : ∀ k, 1 ≤ k →
      (k ∈ Comment.markedLines (Comment.turns .rust (l ++ '\n' :: s)) ↔
        k ∈ Comment.markedLines (Comment.turns .rust ('\n' :: s))) := by
    intro k hk
    obtain ⟨n, rfl⟩ : ∃ n, k = n + 1 := ⟨k - 1, by omega⟩
    have hlong := h.mem_markedLines (by simp) n
    have hshort := hsettles.mem_markedLines rfl n
    rw [List.count_append, hcount, List.append_assoc] at hlong
    exact hlong.trans hshort.symm
  have hstop : range.stop ≤ ('\n' :: s).count '\n' := by
    obtain ⟨a, b, c, htext, -, -, -, hstop⟩ := SourceText.lineRange?_eq_some_iff.mp hrange
    rw [hstop, htext]
    simp only [List.count_append]
    omega
  rw [SourceText.effectiveLines_eq hstop, SourceText.effectiveLines_eq]
  · refine List.countP_congr fun k hk => ?_
    rw [List.mem_range'_1] at hk
    rw [decide_eq_true_eq, decide_eq_true_eq]
    exact hmarked k (by omega)
  · rw [List.count_append, hcount]
    omega

theorem evaluate_shift (hl : '\n' ∉ l) (hlength : (l ++ '\n' :: s).byteLength < offsetBound)
    {closure : Closure} (thresholds : List Threshold)
    (h : ∀ range, (SourceText.ofText ('\n' :: s) .rust).lineRange? closure.body = some range →
      (SourceText.ofText (l ++ '\n' :: s) .rust).effectiveLines range =
        (SourceText.ofText ('\n' :: s) .rust).effectiveLines range) :
    evaluate (.ofText (l ++ '\n' :: s) .rust) (closure.shift l.byteLength) thresholds =
      (evaluate (.ofText ('\n' :: s) .rust) closure thresholds).map
        (Violation.shift l.byteLength) := by
  have hrange := @SourceText.lineRange?_behind l .rust _ hl hlength closure.body
  cases hshort : (SourceText.ofText ('\n' :: s) .rust).lineRange? closure.body with
  | none => rw [evaluate_eq_nil thresholds (hrange.trans hshort), evaluate_eq_nil thresholds hshort,
      List.map_nil]
  | some range =>
    rw [evaluate_eq thresholds (hrange.trans hshort), evaluate_eq thresholds hshort, h range hshort]
    exact findingsAt_move (l.byteLength + ·) thresholds closure.offset _

/-- The configuration with a limit for warnings and none for errors. -/
def warningsFrom (limit : Nat) : Option Config :=
  some ⟨[(identifier, ⟨none, some limit, none, none⟩)]⟩

theorem activeThresholds_warningsFrom (limit : Nat) :
    activeThresholds (warningsFrom limit) = [⟨.warning, limit⟩] := rfl

/-- With one limit for warnings, a finding tells the closure that it is about, and that the
closure's body is beyond the limit. -/
theorem mem_evaluate_warning {file : SourceText} {closure : Closure} {range : LineRange}
    {limit : Nat}
    (h : file.lineRange? closure.body = some range) {v : Violation} :
    v ∈ evaluate file closure [⟨.warning, limit⟩] ↔ limit < file.effectiveLines range ∧
      v = ⟨identifier, .warning, closure.offset, reason limit (file.effectiveLines range)⟩ := by
  rw [evaluate_eq _ h, findingsAt]
  by_cases hlt : limit < file.effectiveLines range
  · simp [guideline?, hlt]
  · simp [guideline?, hlt]

/-- The findings in a source behind a line, in those of the source. -/
theorem lint_behind_line {path : Path} (hpath : isRustPath path = true)
    (hsplit : Rust.Preamble.split (l ++ '\n' :: s) = ⟨l.byteLength, '\n' :: s⟩)
    {closures : List Closure} (hclosures : Rust.closures ('\n' :: s) = .ok closures)
    (config : Option Config) :
    (Linter.ofConfig config).lint path (l ++ '\n' :: s) = closures.flatMap (fun closure =>
        evaluate (.ofText (l ++ '\n' :: s) .rust) (closure.shift l.byteLength)
          (activeThresholds config)) ∧
      (Linter.ofConfig config).lint path ('\n' :: s) = closures.flatMap fun closure =>
        evaluate (.ofText ('\n' :: s) .rust) closure (activeThresholds config) := by
  rw [lint_ofConfig, lint_ofConfig, if_pos hpath, if_pos hpath,
    Rust.closures_shift hsplit (Rust.split_newline s), hclosures]
  refine ⟨?_, rfl⟩
  simp only [Except.map, Except.toOption, Option.getD_some, List.flatMap_map]

theorem lt_effectiveLines_of_mem {closures : List Closure} {file : SourceText}
    {place : Closure → Closure} {limit : Nat} {v : Violation}
    (hv : v ∈ closures.flatMap fun c => evaluate file (place c) [⟨.warning, limit⟩])
    {closure : Closure} (hsame : ∀ c ∈ closures, (place c).offset = v.offset → c = closure)
    {range : LineRange} (hrange : file.lineRange? (place closure).body = some range) :
    limit < file.effectiveLines range := by
  obtain ⟨other, hother, hv⟩ := List.mem_flatMap.mp hv
  obtain rfl := hsame other hother (offset_of_mem_evaluate hv).symm
  exact ((mem_evaluate_warning hrange).mp hv).1

/-- Findings that only move with the line tell that the line changes no body's code lines. -/
theorem countsAgree_of_lint (hl : '\n' ∉ l) (hlength : (l ++ '\n' :: s).byteLength < offsetBound)
    {path : Path} (hpath : isRustPath path = true)
    (hsplit : Rust.Preamble.split (l ++ '\n' :: s) = ⟨l.byteLength, '\n' :: s⟩)
    (h : ∀ config, (Linter.ofConfig config).lint path (l ++ '\n' :: s) =
      ((Linter.ofConfig config).lint path ('\n' :: s)).map (Violation.shift l.byteLength)) :
    CountsAgree l s := by
  intro closures hclosures closure hmem range hrange
  have hlong := (@SourceText.lineRange?_behind l .rust _ hl hlength closure.body).trans hrange
  have hsame : ∀ c ∈ closures, c.offset = closure.offset → c = closure :=
    fun c hc => Rust.closure_eq_of_offset_eq hclosures hc hmem
  -- A limit tells two numbers of code lines apart if it is the smaller one of them.
  have hexceeds : ∀ limit,
      limit < (SourceText.ofText (l ++ '\n' :: s) .rust).effectiveLines range ↔
        limit < (SourceText.ofText ('\n' :: s) .rust).effectiveLines range := by
    intro limit
    obtain ⟨hbehind, halone⟩ := lint_behind_line hpath hsplit hclosures (warningsFrom limit)
    have heq := h (warningsFrom limit)
    rw [hbehind, halone, activeThresholds_warningsFrom] at heq
    constructor
    · intro hlt
      have hv : _ ∈ closures.flatMap fun closure => evaluate (.ofText (l ++ '\n' :: s) .rust)
          (closure.shift l.byteLength) [⟨.warning, limit⟩] :=
        List.mem_flatMap.mpr ⟨closure, hmem, (mem_evaluate_warning hlong).mpr ⟨hlt, rfl⟩⟩
      rw [heq, List.mem_map] at hv
      obtain ⟨v, hv, hshift⟩ := hv
      have hoffset : l.byteLength + v.offset = l.byteLength + closure.offset :=
        congrArg Violation.offset hshift
      refine @lt_effectiveLines_of_mem _ _ id _ _ hv _ (fun c hc he => hsame c hc ?_) _ hrange
      exact he.trans (Nat.add_left_cancel hoffset)
    · intro hlt
      have hv : _ ∈ closures.flatMap fun closure => evaluate (.ofText ('\n' :: s) .rust) closure
          [⟨.warning, limit⟩] :=
        List.mem_flatMap.mpr ⟨closure, hmem, (mem_evaluate_warning hrange).mpr ⟨hlt, rfl⟩⟩
      have hshift := List.mem_map_of_mem (f := Violation.shift l.byteLength) hv
      rw [← heq] at hshift
      exact lt_effectiveLines_of_mem hshift
        (fun c hc he => hsame c hc (Nat.add_left_cancel he)) hlong
  rcases Nat.lt_trichotomy ((SourceText.ofText (l ++ '\n' :: s) .rust).effectiveLines range)
    ((SourceText.ofText ('\n' :: s) .rust).effectiveLines range) with hlt | heq | hlt
  · exact absurd ((hexceeds _).mpr hlt) (Nat.lt_irrefl _)
  · exact heq
  · exact absurd ((hexceeds _).mp hlt) (Nat.lt_irrefl _)

/-- The line of an interpreter only moves the findings, under every configuration, if and only if
the comment pass counts as many code lines in every closure body as without the line; and it does if
it is outside comments and literals where the line has ended. -/
theorem lint_behind_shebang (l s : Text) (hl : '\n' ∉ l)
    (hsplit : Rust.Preamble.split (l ++ '\n' :: s) = ⟨l.byteLength, '\n' :: s⟩)
    (hlength : (l ++ '\n' :: s).byteLength < offsetBound) (path : Path)
    (hpath : isRustPath path = true) :
    ((∀ config, (Linter.ofConfig config).lint path (l ++ '\n' :: s) =
        ((Linter.ofConfig config).lint path ('\n' :: s)).map (Violation.shift l.byteLength)) ↔
      CountsAgree l s) ∧
      (Settles .rust (l ++ ['\n']) s → CountsAgree l s) := by
  refine ⟨⟨countsAgree_of_lint hl hlength hpath hsplit, fun hagree config => ?_⟩,
    countsAgree_of_settles hl⟩
  cases hclosures : Rust.closures ('\n' :: s) with
  | error fault =>
    rw [lint_ofConfig, lint_ofConfig, if_pos hpath, if_pos hpath,
      Rust.closures_shift hsplit (Rust.split_newline s), hclosures]
    rfl
  | ok closures =>
    obtain ⟨hbehind, halone⟩ := lint_behind_line hpath hsplit hclosures config
    rw [hbehind, halone, List.map_flatMap, List.flatMap_def, List.flatMap_def]
    refine congrArg List.flatten (List.map_congr_left fun closure hmem => ?_)
    exact evaluate_shift hl hlength _ (hagree closures hclosures closure hmem)

def shell : Text := "#!/bin/sh".toList

def main : Text := "fn main() \x7b let f = || 1; \x7d".toList

theorem lint_behind_shebang_shell : '\n' ∉ shell ∧
    Rust.Preamble.split (shell ++ '\n' :: main) = ⟨shell.byteLength, '\n' :: main⟩ ∧
      (shell ++ '\n' :: main).byteLength < offsetBound ∧ isRustPath ⟨"a.rs"⟩ = true ∧
        ((∀ config, (Linter.ofConfig config).lint ⟨"a.rs"⟩ (shell ++ '\n' :: main) =
            ((Linter.ofConfig config).lint ⟨"a.rs"⟩ ('\n' :: main)).map
              (Violation.shift shell.byteLength)) ↔ CountsAgree shell main) ∧
          (Settles .rust (shell ++ ['\n']) main → CountsAgree shell main) := by
  have hsplit : Rust.Preamble.split (shell ++ '\n' :: main) = ⟨shell.byteLength, '\n' :: main⟩ := by
    decide +kernel
  have hpath : isRustPath ⟨"a.rs"⟩ = true := by cbv
  exact ⟨by decide, hsplit, by decide, hpath,
    lint_behind_shebang shell main (by decide) hsplit (by decide) ⟨"a.rs"⟩ hpath⟩

/-- A comment opener in the line takes the pass into a comment. -/
example : ¬ Settles .rust "#! /*\n".toList main := fun h => absurd h.mode (by decide)

end BodyLength

end ClosureLint
