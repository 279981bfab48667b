import ClosureLint.Counting
import ClosureLint.Proofs.Files.Components
import ClosureLint.Proofs.Rules
import Mathlib

/-! What becomes of the findings when something is added to a linter. Front ends and rules are kept
apart, so only their order among their own kind counts. A further rule has its findings at each
closure behind those of the earlier rules, and a further front end is asked only where none of the
earlier ones is in charge, whatever those make of the file. -/

namespace ClosureLint

/-- Something that is added to a linter. -/
inductive Addition where
  | frontEnd (added : FrontEnd)
  | rule (added : Rule)

namespace Addition

def frontEnd? : Addition → Option FrontEnd
  | .frontEnd added => some added
  | .rule _ => none

def rule? : Addition → Option Rule
  | .frontEnd _ => none
  | .rule added => some added

def addTo (linter : Linter) : Addition → Linter
  | .frontEnd added => linter.addFrontEnd added
  | .rule added => linter.addRule added

end Addition

namespace Linter

/-- The linter to which everything in a list has been added, one after the other. -/
def ofAdditions (additions : List Addition) : Linter := additions.foldl Addition.addTo empty

theorem foldl_addTo (additions : List Addition) (linter : Linter) :
    additions.foldl Addition.addTo linter =
      ⟨linter.frontEnds ++ additions.filterMap Addition.frontEnd?,
        linter.rules ++ additions.filterMap Addition.rule?⟩ := by
  induction additions generalizing linter with
  | nil => simp
  | cons addition additions ih =>
    rw [List.foldl_cons, ih]
    cases addition with
    | frontEnd added =>
      simp [Addition.addTo, addFrontEnd, Addition.frontEnd?, Addition.rule?, List.filterMap_cons]
    | rule added =>
      simp [Addition.addTo, addRule, Addition.frontEnd?, Addition.rule?, List.filterMap_cons]

/-- A linter holds the front ends and the rules that were added, each kind in its order. -/
theorem ofAdditions_eq (additions : List Addition) : ofAdditions additions =
    ⟨additions.filterMap Addition.frontEnd?, additions.filterMap Addition.rule?⟩ :=
  foldl_addTo additions empty

variable {linter : Linter} {path : Path} {text : Text} {frontEnd : FrontEnd}
  {closures : List Closure}

/-! ### Rules -/

/-- The findings of a list of rules, each with the number of the rule that made it. -/
def attributed (rules : List Rule) (file : SourceText) (closures : List Closure) :
    List (Nat × Violation) :=
  closures.flatMap fun closure => rules.zipIdx.flatMap fun p =>
    (p.1.validate file closure).map (p.2, ·)

theorem map_snd_attributed (rules : List Rule) (file : SourceText) (closures : List Closure) :
    (attributed rules file closures).map Prod.snd = applyRules rules file closures := by
  rw [attributed, applyRules, List.map_flatMap]
  refine List.flatMap_congr fun closure _ => ?_
  have hrule : ∀ p : Rule × Nat, ((p.1.validate file closure).map (p.2, ·)).map Prod.snd =
      p.1.validate file closure := by
    intro p
    rw [List.map_map]
    exact List.map_id _
  rw [List.map_flatMap, funext hrule, ← List.flatMap_map Prod.fst (Rule.validate · file closure),
    List.zipIdx_map_fst]

/-- Without what a further rule has found, there is left what the earlier rules have found. -/
theorem filter_attributed (rules : List Rule) (rule : Rule) (file : SourceText)
    (closures : List Closure) :
    (attributed (rules ++ [rule]) file closures).filter (fun f => f.1 ≠ rules.length) =
      attributed rules file closures := by
  rw [attributed, attributed, List.filter_flatMap]
  refine List.flatMap_congr fun closure _ => ?_
  have hearlier : ∀ p ∈ rules.zipIdx, ((p.1.validate file closure).map (p.2, ·)).filter
      (fun f => f.1 ≠ rules.length) = (p.1.validate file closure).map (p.2, ·) := by
    intro p hp
    have hlt := List.snd_lt_of_mem_zipIdx hp
    rw [List.filter_eq_self]
    intro f hf
    obtain ⟨v, -, rfl⟩ := List.mem_map.mp hf
    exact decide_eq_true (by simp only; omega)
  have hlast : ∀ vs : List Violation,
      (vs.map (rules.length, ·)).filter (fun f => f.1 ≠ rules.length) = [] := by
    intro vs
    simp
  rw [List.zipIdx_append, List.flatMap_append, List.filter_append, List.filter_flatMap,
    List.flatMap_congr hearlier, List.zipIdx_singleton, List.flatMap_singleton, Nat.zero_add,
    hlast, List.append_nil]

/-- A further rule has its findings behind those of the others, closure by closure. -/
theorem applyRules_concat (rules : List Rule) (rule : Rule) (file : SourceText)
    (closures : List Closure) : applyRules (rules ++ [rule]) file closures =
      closures.flatMap fun closure =>
        (rules.flatMap fun earlier => earlier.validate file closure) ++
          rule.validate file closure := by
  rw [applyRules]
  refine List.flatMap_congr fun closure _ => ?_
  rw [List.flatMap_append, List.flatMap_singleton]

/-! ### Front ends -/

/-- A further front end is not in charge of a path that has one. -/
theorem frontEndFor?_addFrontEnd (h : (linter.frontEndFor? path).isSome = true)
    (added : FrontEnd) :
    (linter.addFrontEnd added).frontEndFor? path = linter.frontEndFor? path := by
  obtain ⟨frontEnd, hfrontEnd⟩ := Option.isSome_iff_exists.mp h
  rw [hfrontEnd]
  rw [frontEndFor?, Option.bind_eq_bind, Option.bind_eq_some_iff] at hfrontEnd ⊢
  obtain ⟨extension, hextension, hfound⟩ := hfrontEnd
  refine ⟨extension, hextension, ?_⟩
  rw [addFrontEnd, List.find?_append, hfound, Option.some_or]

theorem lint_congr {other : Linter} (hrules : other.rules = linter.rules)
    (h : other.frontEndFor? path = linter.frontEndFor? path) (text : Text) :
    other.lint path text = linter.lint path text := by
  rw [lint, lint, h, hrules]

/-- The file has no front end, or its front end cannot read it. -/
def Unread (linter : Linter) (path : Path) (text : Text) : Prop :=
  ∀ frontEnd, linter.frontEndFor? path = some frontEnd → frontEnd.closures? text = none

/-- Adding to a linter takes nothing away. Additions of front ends and of rules to the same linter
may come in any order among each other: only the order among their own kind counts. In a file that
its front end can read, a further rule leaves the findings of the earlier rules at each closure in
place and has its own behind them, so without those the list is the old one. A further front end
changes nothing for a path that has one, also where that one cannot read the file. And a file that
has no front end, or one that cannot read it, has no findings under any rules. -/
theorem additions_conservative :
    (∀ additions additions' : List Addition,
      additions.filterMap Addition.frontEnd? = additions'.filterMap Addition.frontEnd? →
      additions.filterMap Addition.rule? = additions'.filterMap Addition.rule? →
      ∀ path text, (ofAdditions additions).lint path text =
        (ofAdditions additions').lint path text) ∧
    ∀ (linter : Linter) (path : Path),
      (∀ text frontEnd closures, linter.frontEndFor? path = some frontEnd →
        frontEnd.closures? text = some closures → ∀ rule,
        let file := SourceText.ofText text frontEnd.style
        let earlier := fun closure => linter.rules.flatMap fun rule => rule.validate file closure
        let found := attributed (linter.rules ++ [rule]) file closures
        linter.lint path text = closures.flatMap earlier ∧
        (linter.addRule rule).lint path text =
          closures.flatMap (fun closure => earlier closure ++ rule.validate file closure) ∧
        found.map Prod.snd = (linter.addRule rule).lint path text ∧
        (found.filter (fun f => f.1 ≠ linter.rules.length)).map Prod.snd = linter.lint path text) ∧
      ((linter.frontEndFor? path).isSome = true → ∀ added,
        (linter.addFrontEnd added).frontEndFor? path = linter.frontEndFor? path ∧
        ∀ text, (linter.addFrontEnd added).lint path text = linter.lint path text) ∧
      ∀ text, linter.Unread path text → ∀ rules,
        ({ linter with rules := rules } : Linter).lint path text = [] := by
  refine ⟨fun additions additions' hfrontEnds hrules path text => ?_, fun linter path =>
    ⟨fun text frontEnd closures hfrontEnd hclosures rule => ?_, fun h added => ?_, ?_⟩⟩
  · rw [ofAdditions_eq, ofAdditions_eq, hfrontEnds, hrules]
  · have hadded : (linter.addRule rule).frontEndFor? path = some frontEnd := hfrontEnd
    have hrules : (linter.addRule rule).rules = linter.rules ++ [rule] := rfl
    rw [lint_eq_applyRules hfrontEnd hclosures, lint_eq_applyRules hadded hclosures, hrules]
    refine ⟨rfl, applyRules_concat .., map_snd_attributed .., ?_⟩
    rw [filter_attributed, map_snd_attributed]
  · have hsame := frontEndFor?_addFrontEnd h added
    exact ⟨hsame, lint_congr rfl hsame⟩
  · exact fun text h rules => @lint_eq_nil { linter with rules := rules } path text h

/-- A front end that takes a whole file for the body of a closure, and cannot read an empty one. -/
def wholeFile : FrontEnd where
  name := "whole"
  extensions := ["w"]
  style := .rust
  closures? t := if t = [] then none else some [⟨0, ⟨0, t.byteLength⟩⟩]

def counted : List Addition := [.frontEnd wholeFile, .rule Counting.rule]

def countedFirst : List Addition := [.rule Counting.rule, .frontEnd wholeFile]

theorem frontEndFor?_counted : (ofAdditions counted).frontEndFor? ⟨"a.w"⟩ = some wholeFile := by
  have hextension : (Path.mk "a.w").extension? = some "w" := by
    simp only [Path.extension?, Path.fileName?, Path.components, splitOn_slash]
    decide +kernel
  have hfrontEnds : (ofAdditions counted).frontEnds = [wholeFile] := rfl
  have hcharge : wholeFile.extensions.contains (asciiLower "w") = true := by decide +kernel
  rw [frontEndFor?, hextension, hfrontEnds, Option.bind_eq_bind, Option.bind_some]
  simp only [List.find?, hcharge]

/-- The rule is joined by another one, and the front end by one for the same files that can read the
empty one. -/
theorem additions_conservative_counted :
    let linter := ofAdditions counted
    let closure : Closure := ⟨0, ⟨0, 3⟩⟩
    let file := SourceText.ofText "x\ny".toList .rust
    let limited := BodyLength.rule ⟨1, none⟩
    let lenient : FrontEnd := { wholeFile with closures? := fun _ => some [] }
    counted.filterMap Addition.frontEnd? = countedFirst.filterMap Addition.frontEnd? ∧
    counted.filterMap Addition.rule? = countedFirst.filterMap Addition.rule? ∧
    (linter.lint ⟨"a.w"⟩ "x\ny".toList = (ofAdditions countedFirst).lint ⟨"a.w"⟩ "x\ny".toList) ∧
    linter.frontEndFor? ⟨"a.w"⟩ = some wholeFile ∧
    wholeFile.closures? "x\ny".toList = some [closure] ∧
    linter.lint ⟨"a.w"⟩ "x\ny".toList = Counting.rule.validate file closure ∧
    (linter.addRule limited).lint ⟨"a.w"⟩ "x\ny".toList =
      Counting.rule.validate file closure ++ limited.validate file closure ∧
    (linter.addFrontEnd lenient).frontEndFor? ⟨"a.w"⟩ = some wholeFile ∧
    linter.Unread ⟨"a.w"⟩ [] ∧ (linter.addRule limited).lint ⟨"a.w"⟩ [] = [] := by
  intro linter closure file limited lenient
  have hfrontEnd := frontEndFor?_counted
  have hrules : linter.rules = [Counting.rule] := rfl
  have hstyle : wholeFile.style = .rust := rfl
  have hclosures : wholeFile.closures? "x\ny".toList = some [closure] := by decide
  have hunread : linter.Unread ⟨"a.w"⟩ [] := by
    intro frontEnd h
    obtain rfl := Option.some.inj (hfrontEnd.symm.trans h)
    rfl
  obtain ⟨horder, hall⟩ := additions_conservative
  obtain ⟨hrule, hadded, hnone⟩ := hall linter ⟨"a.w"⟩
  obtain ⟨hold, hnew, -⟩ := hrule "x\ny".toList wholeFile [closure] hfrontEnd hclosures limited
  refine ⟨rfl, rfl, horder counted countedFirst rfl rfl _ _, hfrontEnd, hclosures, ?_, ?_, ?_,
    hunread, hnone [] hunread _⟩
  · rw [hold, hrules, List.flatMap_singleton, List.flatMap_singleton, hstyle]
  · rw [hnew, List.flatMap_singleton, hrules, hstyle]
    simp only [List.flatMap_singleton, file]
  · exact (hadded (Option.isSome_of_eq_some hfrontEnd) lenient).1.trans hfrontEnd

end Linter

end ClosureLint
