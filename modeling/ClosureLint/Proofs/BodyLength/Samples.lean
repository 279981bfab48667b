import ClosureLint.Examples
import ClosureLint.Proofs.Json.Reading
import ClosureLint.Proofs.Source.Rows
import Mathlib

/-! The sample sources at every size. The body of the sample closure measures its statements and the
two lines that open and close it, whatever comments and blank lines are added, so the number of
statements alone decides which of the default limits it goes past. -/

namespace ClosureLint

open BodyLength
open Comment (Padding)

namespace Examples

/-! ### The rows of the samples -/

/-- A statement of a sample, without the newline behind it. -/
def row (name : String) (i : Nat) : Text :=
  "        let ".toList ++ name.toList ++ (toString i).toList ++ " = ".toList ++
    (toString i).toList ++ [';']

theorem toList_statements (name : String) (count : Nat) : (statements name count).toList =
    (List.range count).flatMap fun i => row name i ++ ['\n'] := by
  rw [statements, String.toList_join, List.flatMap_map]
  unfold row
  simp only [String.toList_append]
  simp only [List.append_assoc]
  rfl

theorem mem_row {name : String} {i : Nat} {c : Char} (h : c ∈ row name i) :
    c.isDigit = true ∨ c ∈ name.toList ∨ c ∈ " let=;".toList := by
  unfold row at h
  simp only [List.mem_append, or_assoc] at h
  rcases h with h | h | h | h | h | h
  · simp at h ⊢
    tauto
  · exact .inr (.inl h)
  · exact .inl (Json.isDigit_of_mem_toString h)
  · simp at h ⊢
    tauto
  · exact .inl (Json.isDigit_of_mem_toString h)
  · simp at h ⊢
    tauto

theorem codeRow_row {name : String} (hname : CodeRow name.toList) (i : Nat) :
    CodeRow (row name i) := by
  have hfixed : CodeRow " let=;".toList := by decide +kernel
  refine ⟨fun c hc => ?_, fun hc => ?_, ';', List.mem_append_right _ (List.mem_singleton_self _), rfl⟩
  · rcases mem_row hc with hc | hc | hc
    · exact .inr (Rust.isPlain_of_number (Rust.isNumberPart_of_isDigit hc))
    · exact hname.plain c hc
    · exact hfixed.plain c hc
  · rcases mem_row hc with hc | hc | hc
    · exact absurd hc (by decide)
    · exact hname.one hc
    · exact hfixed.one hc

theorem rows_statements {name : String} (hname : CodeRow name.toList) (count : Nat) :
    Rows count (statements name count).toList := by
  have hrows : Rows ((List.range count).length * 1) (statements name count).toList := by
    rw [toList_statements]
    exact .flatMap fun i _ => .ofLine (codeRow_row hname i)
  rwa [List.length_range, Nat.mul_one] at hrows

theorem rows_replicate {line : String} (h : Padding line.toList) (count : Nat) :
    Rows 0 (String.join (List.replicate count line)).toList := by
  rw [String.toList_join]
  exact .flatMap (n := 0) fun l hl => (List.eq_of_mem_replicate hl) ▸ .ofPadding h

/-! ### The sample closure -/

/-- What stands in front of the sample closure. -/
def front : Text := "fn main() \x7b\n    foo.bar(".toList

def parameters : Text := "|toto| ".toList

/-- The body of the sample closure around some lines, from its first brace to its last one. -/
def body (lines : Text) : Text := "\x7b\n".toList ++ lines ++ "    \x7d".toList

def back : Text := ");\n\x7d\n".toList

def source (lines : Text) : Text := front ++ parameters ++ body lines ++ back

def closure (lines : Text) : Closure :=
  ⟨front.byteLength, ⟨(front ++ parameters).byteLength, (body lines).byteLength⟩⟩

theorem source_eq (lines : Text) : source lines = opening.toList ++ lines ++ closing.toList := by
  have hopening : opening.toList = front ++ parameters ++ "\x7b\n".toList := rfl
  have hclosing : closing.toList = "    \x7d".toList ++ back := rfl
  rw [hopening, hclosing, source, body]
  simp only [List.append_assoc]

theorem count_body (lines : Text) : (body lines).count '\n' = lines.count '\n' + 1 := by
  rw [body, List.count_append, List.count_append, Nat.add_comm (lines.count '\n')]
  rfl

/-- The body of the sample closure measures the lines of code in it, the line that opens it and the
one that closes it. -/
theorem measures_source {n : Nat} {lines : Text} (h : Rows n lines) : ∃ range : LineRange,
    (SourceText.ofText (source lines) .rust).lineOf? (closure lines).body.offset =
        some range.start ∧
      (SourceText.ofText (source lines) .rust).lineOf?
          ((closure lines).body.offset + (closure lines).body.length) = some range.stop ∧
        (SourceText.ofText (source lines) .rust).effectiveLines range = n + 2 := by
  have hfirst : CodeRow "fn main() \x7b".toList := by decide +kernel
  have hopen : CodeRow "    foo.bar(|toto| \x7b".toList := by decide +kernel
  have hclose : CodeRow "    \x7d);".toList := by decide +kernel
  have hlast : CodeRow "\x7d".toList := by decide +kernel
  have hrows := ((Rows.ofLine hopen).append h).append (.ofLine hclose)
  refine ⟨⟨1, 1 + (body lines).count '\n', Nat.le_add_right _ _⟩, ?_, ?_, ?_⟩
  · exact SourceText.lineOf?_eq_some_iff.mpr
      ⟨front ++ parameters, body lines ++ back, by rw [source, List.append_assoc], rfl, rfl⟩
  · refine SourceText.lineOf?_eq_some_iff.mpr
      ⟨front ++ parameters ++ body lines, back, rfl, (Text.byteLength_append _ _).symm, ?_⟩
    rw [List.count_append]
    rfl
  · have hsource : source lines = "fn main() \x7b".toList ++ ['\n'] ++
        ("    foo.bar(|toto| \x7b".toList ++ ['\n'] ++ lines ++ ("    \x7d);".toList ++ ['\n']) ++
          ("\x7d".toList ++ ['\n'])) := by
      have hopening : opening.toList = "fn main() \x7b".toList ++ ['\n'] ++
        ("    foo.bar(|toto| \x7b".toList ++ ['\n']) := rfl
      have hclosing : closing.toList = "    \x7d);".toList ++ ['\n'] ++
        ("\x7d".toList ++ ['\n']) := rfl
      rw [source_eq, hopening, hclosing]
      simp only [List.append_assoc]
    rw [hsource, (Rows.ofLine hfirst).effectiveLines_eq hrows (.ofLine hlast) rfl]
    · omega
    · show 1 + (body lines).count '\n' + 1 = _
      rw [count_body, List.count_append, hfirst.count_newline, List.count_append, List.count_append,
        hopen.count_newline, hclose.count_newline]
      omega

/-! ### The families of samples -/

def indent : Text := List.replicate 8 ' '

theorem eq_of_mem_indent {c : Char} (h : c ∈ indent) : c = ' ' := List.eq_of_mem_replicate h

theorem padding_indent {t : Text} (h : Padding t) : Padding (indent ++ t) :=
  .blanks (fun c hc => by rw [eq_of_mem_indent hc]; rfl) h

theorem rows_callWithClosure (code comments blanks : Nat) : ∃ lines, Rows code lines ∧
    (callWithClosure code comments blanks).toList = source lines := by
  have hcode : Rows code (statements "a" code).toList := rows_statements (by decide +kernel) code
  have hcomment : Padding "        // toto\n".toList := by
    have hline : "        // toto\n".toList = indent ++ '/' :: '/' :: (" toto".toList ++ ['\n']) := rfl
    rw [hline]
    exact padding_indent (.lineComment (by decide) .nil)
  have hblank : Padding "\n".toList := .blank rfl .nil
  refine ⟨_, (hcode.append (rows_replicate hcomment comments)).append
    (rows_replicate hblank blanks), ?_⟩
  rw [callWithClosure, source_eq]
  simp only [String.toList_append, List.append_assoc]

theorem not_mem_block {c : Char} (hdigit : c.isDigit = false)
    (hfixed : c ∉ "old".toList ++ " let=;".toList ++ ['\n']) (commented : Nat) :
    c ∉ '\n' :: ((statements "old" commented).toList ++ indent) := by
  simp only [List.mem_append, not_or, List.mem_singleton] at hfixed
  obtain ⟨⟨hname, htext⟩, hnewline⟩ := hfixed
  rw [toList_statements, List.mem_cons, List.mem_append, List.mem_flatMap]
  rintro (h | ⟨i, -, h⟩ | h)
  · exact hnewline h
  · rcases List.mem_append.mp h with h | h
    · rcases mem_row h with h | h | h
      · rw [hdigit] at h
        cases h
      · exact hname h
      · exact htext h
    · exact hnewline (List.mem_singleton.mp h)
  · exact htext (eq_of_mem_indent h ▸ by decide)

theorem rows_callWithBlockComment (code commented : Nat) : ∃ lines, Rows code lines ∧
    (callWithBlockComment code commented).toList = source lines := by
  have hcode : Rows code (statements "a" code).toList := rows_statements (by decide +kernel) code
  have hcontent : Comment.Balanced 1
      ('\n' :: ((statements "old" commented).toList ++ indent) ++ ['*', '/']) :=
    .front (not_mem_block rfl (by decide) commented) (not_mem_block rfl (by decide) commented)
      (.closing .nil)
  have hcomment := padding_indent (.blockComment hcontent (.blank (c := '\n') rfl .nil))
  have hopen : "        /*\n".toList = indent ++ ['/', '*', '\n'] := rfl
  have hclose : "        */\n".toList = indent ++ ['*', '/', '\n'] := rfl
  refine ⟨_, .padding hcomment hcode, ?_⟩
  rw [callWithBlockComment, source_eq]
  simp only [String.toList_append, hopen, hclose, List.append_assoc, List.cons_append,
    List.nil_append]

theorem rows_nestedShortClosure {code : Nat} (h : 1 ≤ code) : ∃ lines, Rows code lines ∧
    (nestedShortClosure code).toList = source lines := by
  have hcode : Rows (code - 1) (statements "a" (code - 1)).toList :=
    rows_statements (by decide +kernel) (code - 1)
  have hinner : CodeRow "        let inc = |y: i32| y + 1;".toList := by decide +kernel
  have hrows := hcode.append (.ofLine hinner)
  rw [Nat.sub_add_cancel h] at hrows
  have hline : "        let inc = |y: i32| y + 1;\n".toList =
    "        let inc = |y: i32| y + 1;".toList ++ ['\n'] := rfl
  refine ⟨_, hrows, ?_⟩
  rw [nestedShortClosure, source_eq]
  simp only [String.toList_append, hline, List.append_assoc]

/-! ### What is reported -/

/-- The finding that the body of the sample closure has so many lines under the default limits. -/
def tooLong (lines : Text) (count : Nat) (severity : Severity) : Violation :=
  ⟨identifier, severity, (closure lines).offset, reason defaultLevels.warning count⟩

theorem evaluate_source {lines : Text} {range : LineRange} {code : Nat}
    (hrange : (SourceText.ofText (source lines) .rust).lineRange? (closure lines).body = some range)
    (hcount : (SourceText.ofText (source lines) .rust).effectiveLines range = code + 2) :
    evaluate (.ofText (source lines) .rust) (closure lines) defaultLevels.thresholds =
      if code ≤ 18 then [] else
        if code ≤ 98 then [tooLong lines (code + 2) .warning]
        else [tooLong lines (code + 2) .warning, tooLong lines (code + 2) .error] := by
  have herror : (∃ limit ∈ defaultLevels.error, limit < code + 2) ↔ ¬ code ≤ 98 := by
    simp only [defaultLevels, Option.mem_some_iff, exists_eq_left']
    omega
  have hwarning : defaultLevels.warning < code + 2 ↔ ¬ code ≤ 18 := by
    simp only [defaultLevels]
    omega
  rw [evaluate_eq _ hrange, hcount, findingsAt_levels]
  simp only [hwarning, herror, ite_not]
  by_cases hlow : code ≤ 18
  · have hhigh : code ≤ 98 := by omega
    rw [if_pos hlow, if_pos hhigh, if_pos hlow]
    rfl
  · rw [if_neg hlow, if_neg hlow]
    split <;> rfl

/-- The samples scale. However many statements, comments and blank lines there are, and however many
statements are in a block comment, the body of the sample closure measures its statements and the two
lines of its braces. So under the default limits there is no finding up to 18 statements, a warning
from 19 on, and an error behind it from 99 on, in a source whose bytes can be counted. -/
theorem evaluate_samples (code comments blanks commented : Nat) (sample : String)
    (h : sample = callWithClosure code comments blanks ∨
      sample = callWithBlockComment code commented ∨ 1 ≤ code ∧ sample = nestedShortClosure code) :
    ∃ lines, sample.toList = source lines ∧ ∃ range : LineRange,
      (SourceText.ofText (source lines) .rust).lineOf? (closure lines).body.offset =
          some range.start ∧
      (SourceText.ofText (source lines) .rust).lineOf?
          ((closure lines).body.offset + (closure lines).body.length) = some range.stop ∧
      (SourceText.ofText (source lines) .rust).effectiveLines range = code + 2 ∧
      ((source lines).byteLength < offsetBound →
        (SourceText.ofText (source lines) .rust).lineRange? (closure lines).body = some range ∧
        evaluate (.ofText (source lines) .rust) (closure lines) defaultLevels.thresholds =
          if code ≤ 18 then [] else
            if code ≤ 98 then [tooLong lines (code + 2) .warning]
            else [tooLong lines (code + 2) .warning, tooLong lines (code + 2) .error]) := by
  obtain ⟨lines, hrows, hsource⟩ : ∃ lines, Rows code lines ∧ sample.toList = source lines := by
    rcases h with rfl | rfl | ⟨hcode, rfl⟩
    · exact rows_callWithClosure code comments blanks
    · exact rows_callWithBlockComment code commented
    · exact rows_nestedShortClosure hcode
  obtain ⟨range, hstart, hstop, hcount⟩ := measures_source hrows
  refine ⟨lines, hsource, range, hstart, hstop, hcount, fun hbound => ?_⟩
  have hend : (closure lines).body.offset + (closure lines).body.length < offsetBound := by
    refine Nat.lt_of_le_of_lt ?_ hbound
    rw [source, Text.byteLength_append _ back, Text.byteLength_append _ (body lines)]
    exact Nat.le_add_right _ _
  have hrange := SourceText.lineRange?_eq_some_iff_lineOf?.mpr ⟨hend, hstart, hstop⟩
  exact ⟨hrange, evaluate_source hrange hcount⟩

theorem evaluate_samples_nested : 1 ≤ 19 ∧ ∃ lines, (nestedShortClosure 19).toList = source lines ∧
    (source lines).byteLength < offsetBound ∧
    evaluate (.ofText (source lines) .rust) (closure lines) defaultLevels.thresholds =
      [tooLong lines 21 .warning] := by
  obtain ⟨lines, hsource, _, -, -, -, hfound⟩ :=
    evaluate_samples 19 0 0 0 (nestedShortClosure 19) (.inr (.inr ⟨by decide, rfl⟩))
  have hbound : (source lines).byteLength < offsetBound := by
    rw [← hsource, nestedShortClosure]
    simp only [String.toList_append, toList_statements]
    unfold row
    simp only [Json.toList_toString]
    decide +kernel
  exact ⟨by decide, lines, hsource, hbound, (hfound hbound).2⟩

end Examples

end ClosureLint
