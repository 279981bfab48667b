import ClosureLint.Rules

/-! What the linter of a configuration finds in a file. It has one front end and at most one rule,
so its findings are those of the rule at the closures that the front end lists. The table of rules
is drawn up apart from the linter, and tells what the linter does. -/

namespace ClosureLint

def isRustPath (path : Path) : Bool :=
  path.extension?.any fun extension => asciiLower extension == "rs"

/-- The thresholds of the body length rule under a configuration, none if it does not run. -/
def activeThresholds (config : Option Config) : List Threshold :=
  if ruleRuns config BodyLength.identifier then (bodyLengthLevels config).thresholds else []

theorem BodyLength.evaluate_nil (file : SourceText) (closure : Closure) :
    BodyLength.evaluate file closure [] = [] := rfl

/-! ### Any linter -/

namespace Linter

variable {linter : Linter} {path : Path} {text : Text} {frontEnd : FrontEnd}
  {closures : List Closure}

theorem lint_eq_applyRules (h : linter.frontEndFor? path = some frontEnd)
    (hclosures : frontEnd.closures? text = some closures) : linter.lint path text =
      applyRules linter.rules (.ofText text frontEnd.style) closures := by
  rw [lint, h]
  simp only
  rw [hclosures]
  simp only
  split
  next hempty =>
    -- There is nothing to apply, or nothing to apply it to.
    rw [Bool.or_eq_true, List.isEmpty_iff, List.isEmpty_iff] at hempty
    rcases hempty with hempty | hempty
    · rw [hempty]
      rfl
    · simp [applyRules, hempty]
  next => rfl

/-- A file that has no front end, or one that cannot read it, has no findings. -/
theorem lint_eq_nil (h : ∀ frontEnd, linter.frontEndFor? path = some frontEnd →
    frontEnd.closures? text = none) : linter.lint path text = [] := by
  rw [lint]
  split
  next => rfl
  next frontEnd hfrontEnd => rw [h frontEnd hfrontEnd]

end Linter

/-! ### Linters for Rust alone -/

theorem frontEndFor?_rust (rules : List Rule) (path : Path) :
    (Linter.mk [Rust.frontEnd] rules).frontEndFor? path =
      if isRustPath path then some Rust.frontEnd else none := by
  have hextensions : Rust.frontEnd.extensions = ["rs"] := rfl
  rw [Linter.frontEndFor?, isRustPath]
  cases path.extension? with
  | none => rfl
  | some extension =>
    by_cases h : asciiLower extension = "rs"
    · simp [hextensions, h]
    · simp [hextensions, h]

/-- A linter whose only front end is the one for Rust applies its rules to the closures of a Rust
file. -/
theorem lint_rust (rules : List Rule) (path : Path) (text : Text) :
    (Linter.mk [Rust.frontEnd] rules).lint path text =
      if isRustPath path then
        Linter.applyRules rules (.ofText text .rust) ((Rust.closures text).toOption.getD [])
      else [] := by
  have hclosures : Rust.frontEnd.closures? text = (Rust.closures text).toOption := rfl
  have hfrontEnd := frontEndFor?_rust rules path
  split
  next hpath =>
    rw [if_pos hpath] at hfrontEnd
    cases hread : (Rust.closures text).toOption with
    | none =>
      refine Linter.lint_eq_nil fun frontEnd h => ?_
      obtain rfl := Option.some.inj (hfrontEnd.symm.trans h)
      exact hclosures.trans hread
    | some closures => exact Linter.lint_eq_applyRules hfrontEnd (hclosures.trans hread)
  next hpath =>
    rw [if_neg hpath] at hfrontEnd
    refine Linter.lint_eq_nil fun frontEnd h => ?_
    rw [hfrontEnd] at h
    cases h

/-- The linter for Rust that has the body length rule with given limits. -/
def bodyLengthLinter (levels : Levels) : Linter :=
  (Linter.empty.addFrontEnd Rust.frontEnd).addRule (BodyLength.rule levels)

theorem lint_bodyLength (levels : Levels) (path : Path) (text : Text) :
    (bodyLengthLinter levels).lint path text =
      if isRustPath path then
        ((Rust.closures text).toOption.getD []).flatMap fun closure =>
          BodyLength.evaluate (.ofText text .rust) closure levels.thresholds
      else [] := by
  rw [show bodyLengthLinter levels = ⟨[Rust.frontEnd], [BodyLength.rule levels]⟩ from rfl, lint_rust]
  simp [Linter.applyRules, BodyLength.rule]

/-! ### The linter of a configuration -/

theorem ofConfig_eq (config : Option Config) : Linter.ofConfig config =
    if ruleRuns config BodyLength.identifier then bodyLengthLinter (bodyLengthLevels config)
    else ⟨[Rust.frontEnd], []⟩ := rfl

/-- The findings in a file under a configuration: those of the body length rule, closure by
closure. -/
theorem lint_ofConfig (config : Option Config) (path : Path) (text : Text) :
    (Linter.ofConfig config).lint path text =
      if isRustPath path then
        ((Rust.closures text).toOption.getD []).flatMap fun closure =>
          BodyLength.evaluate (.ofText text .rust) closure (activeThresholds config)
      else [] := by
  rw [ofConfig_eq, activeThresholds]
  by_cases hruns : ruleRuns config BodyLength.identifier = true
  · rw [if_pos hruns, if_pos hruns, lint_bodyLength]
  · rw [if_neg hruns, if_neg hruns, lint_rust]
    simp [Linter.applyRules, BodyLength.evaluate_nil]

theorem ruleRows_eq (config : Option Config) : ruleRows config =
    [⟨BodyLength.description, ruleRuns config BodyLength.identifier,
      (bodyLengthLevels config).thresholds⟩] := by
  have hlevels : ((config.bind fun config => config.settings? BodyLength.identifier).map
      BodyLength.levelsOf).getD BodyLength.defaultLevels = bodyLengthLevels config := by
    rw [bodyLengthLevels]
    cases config.bind fun config => config.settings? BodyLength.identifier <;> rfl
  rw [ruleRows, hlevels]
  rfl

/-- The table of rules tells what the linter of a configuration does: it has one row; the linter has
the rule of that row if the row says that it runs, and no rule otherwise; and the findings in a file
are those of the thresholds in the row at each closure, in the order of the closures, if the rule
runs, the file is one of Rust and its source can be read, and there are none otherwise. -/
theorem exists_row_lint (config : Option Config) : ∃ row, ruleRows config = [row] ∧
    (Linter.ofConfig config).rules.length = (if row.enabled then 1 else 0) ∧
      (Linter.ofConfig config).descriptions = (if row.enabled then [row.description] else []) ∧
        ∀ path text, (Linter.ofConfig config).lint path text =
          match row.enabled && isRustPath path, Rust.closures text with
          | true, .ok closures => closures.flatMap fun closure =>
              BodyLength.evaluate (.ofText text .rust) closure row.thresholds
          | _, _ => [] := by
  refine ⟨_, ruleRows_eq config, ?_, ?_, fun path text => ?_⟩
  · rw [ofConfig_eq]
    cases ruleRuns config BodyLength.identifier <;> rfl
  · rw [ofConfig_eq]
    cases ruleRuns config BodyLength.identifier <;> rfl
  · rw [lint_ofConfig, activeThresholds]
    cases ruleRuns config BodyLength.identifier with
    | false => simp [BodyLength.evaluate_nil]
    | true =>
      cases isRustPath path with
      | false => rfl
      | true => cases Rust.closures text <;> rfl

end ClosureLint
