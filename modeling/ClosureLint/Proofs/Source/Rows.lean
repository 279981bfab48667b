import ClosureLint.Proofs.Comment.Padding
import ClosureLint.Proofs.Rust.Readable
import ClosureLint.Proofs.Source.Span
import Mathlib

/-! Texts that are put together from lines of code and from blanks and comments. The pass crosses
such a text outside comments and literals and marks as many lines as there are lines of code in it,
each of them once, whatever stands between them; so this is what a range of its lines measures. -/

namespace ClosureLint

open Comment (State Crosses Inks Padding OpensRaw isBlankChar line_beyond_start
  markedLines_of_crosses mem_inkLines_of_newline_not_mem turns)
open Rust (isPlain)
open Text (utf8Back)

/-! ### Plain characters -/

theorem not_opensRaw_cons {c : Char} {t : Text} (hc : isBlankChar c = true ∨ isPlain c = true) :
    ¬ OpensRaw (c :: t) := by
  rcases hc with hc | hc
  · rintro ⟨_ | hashes, tail, h⟩
    · obtain rfl : c = '"' := (List.cons.inj h).1
      cases hc
    · obtain rfl : c = '#' := (List.cons.inj h).1
      cases hc
  · exact Rust.not_opensRaw_of_plain hc

/-- The pass is outside comments and literals, behind some characters (nearest first). -/
structure InCode (s : State) (behind : Text) : Prop where
  owed : s.owed = 0
  mode : s.mode = .code
  behind : s.behind = utf8Back behind

theorem InCode.start : InCode .start [] := ⟨rfl, rfl, rfl⟩

theorem InCode.beyond {s : State} {behind : Text} (h : InCode s behind) (t : Text) :
    InCode (s.beyond t.utf8 .code) (t.reverse ++ behind) where
  owed := rfl
  mode := rfl
  behind := by
    rw [Text.utf8Back_append, ← h.behind]
    rfl

/-- Blanks and plain characters outside comments and literals stay there. -/
theorem inks_plain {t rest behind : Text} {s : State}
    (ht : ∀ c ∈ t, isBlankChar c = true ∨ isPlain c = true) (hrest : ¬ OpensRaw rest)
    (h : InCode s behind) : Inks s t rest .code := by
  induction t generalizing s behind with
  | nil => exact h.mode ▸ Inks.nil h.owed
  | cons c t ih =>
    obtain ⟨hc, ht⟩ := List.forall_mem_cons.mp ht
    have hchar : Inks s [c] (t ++ rest) .code := by
      rcases hc with hc | hc
      · exact Inks.blank h.owed h.mode hc
      · have hraw : ¬ OpensRaw (t ++ rest) := by
          cases t with
          | nil => exact hrest
          | cons d t => exact not_opensRaw_cons (ht d (List.mem_cons_self ..))
        exact Inks.code h.owed h.mode h.behind (Rust.isCode_of_plain (.inl hc) fun _ _ => hraw)
    exact hchar.append (ih ht (h.beyond [c]))

/-! ### Lines of code -/

/-- A line of blanks and plain characters, not all of which are blank. -/
structure CodeRow (line : Text) : Prop where
  plain : ∀ c ∈ line, isBlankChar c = true ∨ isPlain c = true
  one : '\n' ∉ line
  inked : ∃ c ∈ line, isBlankChar c = false

theorem codeRow_iff {line : Text} : CodeRow line ↔
    (line.all fun c => isBlankChar c || isPlain c) = true ∧ '\n' ∉ line ∧
      (line.any fun c => !isBlankChar c) = true := by
  simp only [List.all_eq_true, List.any_eq_true, Bool.or_eq_true, Bool.not_eq_true']
  exact ⟨fun h => ⟨h.plain, h.one, h.inked⟩, fun ⟨hplain, hone, hinked⟩ => ⟨hplain, hone, hinked⟩⟩

instance (line : Text) : Decidable (CodeRow line) := decidable_of_iff _ codeRow_iff.symm

theorem CodeRow.count_newline {line : Text} (h : CodeRow line) :
    (line ++ ['\n']).count '\n' = 1 := by
  rw [List.count_append, List.count_eq_zero_of_not_mem h.one, List.count_singleton_self]

theorem CodeRow.crosses {line rest behind : Text} {s : State} (hline : CodeRow line)
    (h : InCode s behind) : Crosses .rust s (line ++ ['\n']).utf8 rest.utf8 .code [s.line] := by
  have hfront : Inks s line (['\n'] ++ rest) .code :=
    inks_plain hline.plain (not_opensRaw_cons (.inl rfl)) h
  have hback : Inks (s.beyond line.utf8 .code) ['\n'] rest .code := Inks.blank rfl rfl rfl
  refine Crosses.congr (hfront.append hback) fun n => ?_
  rw [Comment.inkLines_append, List.count_eq_zero_of_not_mem hline.one, List.mem_append,
    mem_inkLines_of_newline_not_mem hline.one, and_iff_left hline.inked, List.mem_singleton]
  exact or_iff_left (by simp [Comment.inkLines, isBlankChar])

/-- A text of so many lines of code, with blanks and comments between them. -/
inductive Rows : Nat → Text → Prop
  | nil : Rows 0 []
  | code {line t : Text} {n : Nat} : CodeRow line → Rows n t → Rows (n + 1) (line ++ '\n' :: t)
  | padding {ins t : Text} {n : Nat} : Padding ins → Rows n t → Rows n (ins ++ t)

namespace Rows

variable {a b t : Text} {m n : Nat}

theorem append (ha : Rows m a) (hb : Rows n b) : Rows (m + n) (a ++ b) := by
  induction ha with
  | nil => rwa [Nat.zero_add]
  | @code line a m hline ha ih =>
    rw [List.append_assoc, Nat.add_right_comm]
    exact .code hline ih
  | @padding ins a m hins ha ih =>
    rw [List.append_assoc]
    exact .padding hins ih

theorem ofPadding (h : Padding t) : Rows 0 t := by
  have := Rows.padding h .nil
  rwa [List.append_nil] at this

theorem ofLine (h : CodeRow t) : Rows 1 (t ++ ['\n']) := .code h .nil

theorem flatMap {α : Type} {f : α → Text} {l : List α} (h : ∀ x ∈ l, Rows n (f x)) :
    Rows (l.length * n) (l.flatMap f) := by
  induction l with
  | nil =>
    rw [List.length_nil, Nat.zero_mul]
    exact .nil
  | cons x l ih =>
    obtain ⟨hx, hl⟩ := List.forall_mem_cons.mp h
    rw [List.flatMap_cons, List.length_cons, Nat.succ_mul, Nat.add_comm]
    exact hx.append (ih hl)

/-- The lines that the pass marks on its way through a text from a state, so many in all. -/
structure Marks (s : State) (t rest : Text) (n : Nat) (ink : List Nat) : Prop where
  crosses : Crosses .rust s t.utf8 rest.utf8 .code ink
  length : ink.length = n
  nodup : ink.Nodup
  within : ∀ k ∈ ink, s.line ≤ k ∧ k < s.line + t.count '\n'

theorem Marks.append {s : State} {rest : Text} {i j : List Nat} (ha : Marks s a (b ++ rest) m i)
    (hb : Marks (s.beyond a.utf8 .code) b rest n j) : Marks s (a ++ b) rest (m + n) (i ++ j) := by
  have hwithin := hb.within
  rw [State.line_beyond] at hwithin
  have hcross := ha.crosses
  rw [Text.utf8_append] at hcross
  constructor
  · rw [Text.utf8_append]
    exact hcross.append hb.crosses
  · rw [List.length_append, ha.length, hb.length]
  · refine List.nodup_append.mpr ⟨ha.nodup, hb.nodup, fun k hk l hl hkl => ?_⟩
    have := ha.within k hk
    have := hwithin l hl
    omega
  · intro k hk
    rw [List.count_append]
    rcases List.mem_append.mp hk with hk | hk
    · have := ha.within k hk
      omega
    · have := hwithin k hk
      omega

/-- The pass marks as many lines as there are lines of code. -/
theorem exists_marks {rest behind : Text} {s : State} (ht : Rows n t) (h : InCode s behind) :
    ∃ ink, Marks s t rest n ink := by
  induction ht generalizing s behind with
  | nil => exact ⟨[], h.mode ▸ Crosses.nil h.owed, rfl, .nil, List.forall_mem_nil _⟩
  | @code line t n hline ht ih =>
    obtain ⟨ink, hink⟩ := ih (h.beyond (line ++ ['\n']))
    have hfirst : Marks s (line ++ ['\n']) (t ++ rest) 1 [s.line] := by
      refine ⟨hline.crosses h, rfl, List.pairwise_singleton _ _, fun k hk => ?_⟩
      rw [List.mem_singleton.mp hk, hline.count_newline]
      exact ⟨Nat.le_refl _, Nat.lt_succ_self _⟩
    rw [List.append_cons, Nat.add_comm]
    exact ⟨_, hfirst.append hink⟩
  | @padding ins t n hins ht ih =>
    obtain ⟨ink, hink⟩ := ih (h.beyond ins)
    have hfirst : Marks s ins (t ++ rest) 0 [] :=
      ⟨hins.skips h.owed h.mode, rfl, .nil, List.forall_mem_nil _⟩
    have := hfirst.append hink
    rw [Nat.zero_add] at this
    exact ⟨_, this⟩

end Rows

/-! ### Measuring rows -/

/-- A range that spans some rows between others measures the lines of code in them. -/
theorem Rows.effectiveLines_eq {a m b : Text} {i n j : Nat} (ha : Rows i a) (hm : Rows n m)
    (hb : Rows j b) {range : LineRange} (hstart : range.start = a.count '\n')
    (hstop : range.stop + 1 = (a ++ m).count '\n') :
    (SourceText.ofText (a ++ (m ++ b)) .rust).effectiveLines range = n := by
  obtain ⟨front, hfront⟩ : ∃ ink, Rows.Marks .start a (m ++ b ++ []) i ink :=
    ha.exists_marks .start
  obtain ⟨inner, hinner⟩ : ∃ ink, Rows.Marks _ m (b ++ []) n ink :=
    hm.exists_marks (InCode.start.beyond a)
  obtain ⟨back, hback⟩ : ∃ ink, Rows.Marks _ b [] j ink :=
    hb.exists_marks ((InCode.start.beyond a).beyond m)
  have hmarked := markedLines_of_crosses (hfront.append (hinner.append hback)).crosses
  have hfront := hfront.within
  have hin := hinner.within
  have hback := hback.within
  rw [show State.start.line = 0 from rfl] at hfront
  rw [line_beyond_start] at hin
  rw [State.line_beyond, line_beyond_start] at hback
  rw [List.count_append] at hstop
  have hflag : ∀ k ≤ range.stop,
      (SourceText.ofText (a ++ (m ++ b)) .rust).codeLines[k]? = some true ↔
        k ∈ front ∨ k ∈ inner ∨ k ∈ back := by
    intro k hk
    have hle : k ≤ (a ++ (m ++ b)).count '\n' := by
      rw [List.count_append, List.count_append]
      omega
    rw [SourceText.getElem?_codeLines hle, Option.some.injEq, decide_eq_true_eq, turns,
      hmarked, List.mem_append, List.mem_append]
  rw [SourceText.effectiveLines_eq_card_flagged, ← hinner.length,
    ← List.toFinset_card_of_nodup hinner.nodup]
  congr 1
  ext k
  rw [Finset.mem_filter, Finset.mem_Icc, List.mem_toFinset]
  constructor
  · rintro ⟨⟨hlow, hhigh⟩, hk⟩
    -- The lines in front and behind are outside the range.
    rcases (hflag k hhigh).mp hk with hk | hk | hk
    · have := hfront k hk
      omega
    · exact hk
    · have := hback k hk
      omega
  · intro hk
    have := hin k hk
    exact ⟨by omega, (hflag k (by omega)).mpr (.inr (.inl hk))⟩

end ClosureLint
