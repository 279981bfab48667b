import ClosureLint.Command.Run

/-! Exit codes. The exit code of a report is the greatest one that one of its findings asks for, so
it only depends on which severities there are; and where warnings are to fail, nothing but the exit
code changes, and only from 0 to 1. -/

namespace ClosureLint

/-- The exit code that one finding of a severity asks for. -/
def Severity.exitCode (strict : Bool) : Severity → Nat
  | .error => 2
  | .warning => if strict then 1 else 0

theorem Severity.exitCode_mono (strict : Bool) {s s' : Severity} (h : s.rank ≤ s'.rank) :
    s.exitCode strict ≤ s'.exitCode strict := by
  cases strict <;> cases s <;> cases s' <;> simp_all [exitCode, rank]

namespace Report

variable {strict : Bool}

theorem count_pos {report : Report} {severity : Severity} :
    0 < report.count severity ↔ ∃ f ∈ report.findings, f.violation.severity = severity := by
  simp [count, List.countP_pos_iff]

/-- The exit code of a report is the least one that is enough for each of its findings. -/
theorem exitCode_le_iff {report : Report} {n : Nat} : report.exitCode strict ≤ n ↔
    ∀ f ∈ report.findings, f.violation.severity.exitCode strict ≤ n := by
  unfold exitCode
  constructor
  · intro h f hf
    have hcount : 0 < report.count f.violation.severity := count_pos.mpr ⟨f, hf, rfl⟩
    cases hsev : f.violation.severity with
    | error =>
      rw [hsev] at hcount
      simpa [hcount, Severity.exitCode] using h
    | warning =>
      rw [hsev] at hcount
      cases strict with
      | false => exact Nat.zero_le n
      | true =>
        simp only [hcount, decide_true, Bool.and_true, if_true] at h
        refine Nat.le_trans ?_ h
        split <;> decide
  · intro h
    split
    next herror =>
      obtain ⟨f, hf, hsev⟩ := count_pos.mp herror
      simpa [hsev, Severity.exitCode] using h f hf
    next =>
      split
      next hwarning =>
        rw [Bool.and_eq_true, decide_eq_true_eq] at hwarning
        obtain ⟨f, hf, hsev⟩ := count_pos.mp hwarning.2
        simpa [hsev, Severity.exitCode, hwarning.1] using h f hf
      next => exact Nat.zero_le n

theorem exitCode_le_exitCode {report report' : Report}
    (h : ∀ f ∈ report.findings, ∃ g ∈ report'.findings,
      f.violation.severity.rank ≤ g.violation.severity.rank) :
    report.exitCode strict ≤ report'.exitCode strict := by
  refine exitCode_le_iff.mpr fun f hf => ?_
  obtain ⟨g, hg, hrank⟩ := h f hf
  exact Nat.le_trans (Severity.exitCode_mono strict hrank)
    (exitCode_le_iff.mp (Nat.le_refl _) g hg)

theorem exitCode_append (report report' : Report) (files : Nat) :
    exitCode ⟨files, report.findings ++ report'.findings⟩ strict =
      max (report.exitCode strict) (report'.exitCode strict) := by
  have henough : ∀ n, exitCode ⟨files, report.findings ++ report'.findings⟩ strict ≤ n ↔
      max (report.exitCode strict) (report'.exitCode strict) ≤ n := by
    intro n
    rw [Nat.max_le, exitCode_le_iff, exitCode_le_iff, exitCode_le_iff, List.forall_mem_append]
  exact Nat.le_antisymm ((henough _).mpr (Nat.le_refl _)) ((henough _).mp (Nat.le_refl _))

theorem exitCode_strict (report : Report) : report.exitCode true = report.exitCode false ∨
    report.exitCode false = 0 ∧ report.exitCode true = 1 := by
  unfold exitCode
  by_cases herror : 0 < report.count .error
  · simp [herror]
  · by_cases hwarning : 0 < report.count .warning
    · simp [herror, hwarning]
    · simp [herror, hwarning]

end Report

/-- Whether warnings are to fail changes nothing but the exit code of a run, and that only from 0 to
1. -/
theorem runLint_strict (files : FileSystem) (arguments : LintArguments) :
    ∃ code code' output notices written,
      Command.runLint files { arguments with strict := false } =
        ⟨code, output, notices, written⟩ ∧
      Command.runLint files { arguments with strict := true } =
        ⟨code', output, notices, written⟩ ∧
      (code' = code ∨ code = 0 ∧ code' = 1) := by
  simp only [Command.runLint, Bool.true_or, Bool.false_or]
  cases ReportSettings.load files arguments.config with
  | error error => exact ⟨_, _, _, _, _, rfl, rfl, .inl rfl⟩
  | ok settings =>
    cases Config.load files arguments.config with
    | error error => exact ⟨_, _, _, _, _, rfl, rfl, .inl rfl⟩
    | ok config =>
      simp only
      cases Report.ofPaths (Linter.ofConfig config) files arguments.highestOnly arguments.paths with
      | error error => exact ⟨_, _, _, _, _, rfl, rfl, .inl rfl⟩
      | ok report =>
        have hcode : report.exitCode true = report.exitCode (settings.strict.getD false) ∨
            report.exitCode (settings.strict.getD false) = 0 ∧ report.exitCode true = 1 := by
          cases settings.strict.getD false with
          | true => exact .inl rfl
          | false => exact report.exitCode_strict
        simp only
        split
        · exact ⟨_, _, _, _, _, rfl, rfl, .inl rfl⟩
        · cases if arguments.json then OutputFormat.json else settings.format.getD .human with
          | human => exact ⟨_, _, _, _, _, rfl, rfl, hcode⟩
          | json => exact ⟨_, _, _, _, _, rfl, rfl, hcode⟩

end ClosureLint
