import ClosureLint.Proofs.Config.Acceptance
import Mathlib

/-! The limits that settings ask for. A limit is given by its key or by its place among the levels,
and both forms mean the same. Of accepted settings each limit is the one that is given, or zero where
that is negative, or else the default one; only the default for errors is dropped where a limit for
warnings is given and none for errors. -/

namespace ClosureLint

theorem clampLimit_eq_max (n : Int) : (clampLimit n : Int) = max 0 n := by
  rw [clampLimit, Int.toNat_eq_max, max_comm]

theorem clampLimit_max (n : Int) : clampLimit (max 0 n) = clampLimit n := by
  rw [clampLimit, clampLimit]
  omega

namespace RuleSettings

variable {settings : RuleSettings} {defaults levels levels' : Levels} {n m : Int}

/-- A number is given as the limit of a severity: under its key, or in its place among the levels. -/
inductive Gives (settings : RuleSettings) : Severity → Int → Prop
  | warning {n : Int} : settings.warning = some n → Gives settings .warning n
  | error {n : Int} : settings.error = some n → Gives settings .error n
  | first {n : Int} {rest : List Int} : settings.levels = some (n :: rest) →
    Gives settings .warning n
  | second {k n : Int} {rest : List Int} : settings.levels = some (k :: n :: rest) →
    Gives settings .error n

def GivesNone (settings : RuleSettings) : Prop := ∀ severity n, ¬ settings.Gives severity n

/-- The limits are those that are given, with zero in the place of negative ones, and the default
ones where none is given. The default for errors does not stay beside a limit for warnings alone. -/
structure Sets (settings : RuleSettings) (defaults levels : Levels) : Prop where
  warning : ∀ n, settings.Gives .warning n → (levels.warning : Int) = max 0 n
  defaultWarning : (∀ n, ¬ settings.Gives .warning n) → levels.warning = defaults.warning
  error : ∀ n, settings.Gives .error n → ∃ limit ∈ levels.error, (limit : Int) = max 0 n
  defaultError : settings.GivesNone → levels.error = defaults.error
  hasError : levels.error.isSome ↔
    (∃ n, settings.Gives .error n) ∨ settings.GivesNone ∧ defaults.error.isSome

theorem Sets.eq (h : settings.Sets defaults levels) (h' : settings.Sets defaults levels') :
    levels = levels' := by
  have hwarning : levels.warning = levels'.warning := by
    by_cases hgiven : ∃ n, settings.Gives .warning n
    · obtain ⟨n, hn⟩ := hgiven
      have := h.warning n hn
      have := h'.warning n hn
      omega
    · rw [not_exists] at hgiven
      rw [h.defaultWarning hgiven, h'.defaultWarning hgiven]
  have herror : levels.error = levels'.error := by
    by_cases hgiven : ∃ n, settings.Gives .error n
    · obtain ⟨n, hn⟩ := hgiven
      obtain ⟨limit, hlimit, hmax⟩ := h.error n hn
      obtain ⟨limit', hlimit', hmax'⟩ := h'.error n hn
      rw [Option.mem_def.mp hlimit, Option.mem_def.mp hlimit', Option.some.injEq]
      omega
    by_cases hnone : settings.GivesNone
    · rw [h.defaultError hnone, h'.defaultError hnone]
    · -- Without a limit for errors, and with one for warnings, there is no limit for errors.
      have hdropped : ∀ {levels : Levels}, settings.Sets defaults levels → levels.error = none := by
        intro levels h
        rw [← Option.not_isSome_iff_eq_none, h.hasError]
        exact fun hsome => hsome.elim hgiven fun hdefault => hnone hdefault.1
      rw [hdropped h, hdropped h']
  cases levels
  cases levels'
  simp_all

theorem Sets.congr {settings' : RuleSettings} (h : settings.Sets defaults levels)
    (hgives : ∀ severity n, settings.Gives severity n ↔ settings'.Gives severity n) :
    settings'.Sets defaults levels := by
  obtain ⟨hwarning, hdefaultWarning, herror, hdefaultError, hhas⟩ := h
  simp only [GivesNone, hgives] at *
  exact ⟨hwarning, hdefaultWarning, herror, hdefaultError, hhas⟩

theorem gives_keys_iff {enabled : Option Bool} {warning error : Option Int} {severity : Severity} :
    Gives ⟨enabled, warning, error, none⟩ severity n ↔
      severity = .warning ∧ warning = some n ∨ severity = .error ∧ error = some n := by
  constructor
  · intro h
    cases h with
    | warning h => exact .inl ⟨rfl, h⟩
    | error h => exact .inr ⟨rfl, h⟩
    | first h => cases h
    | second h => cases h
  · rintro (⟨rfl, h⟩ | ⟨rfl, h⟩)
    · exact .warning h
    · exact .error h

/-- The same settings with zero in the place of every negative limit. -/
def withoutNegatives (settings : RuleSettings) : RuleSettings where
  enabled := settings.enabled
  warning := settings.warning.map (max 0)
  error := settings.error.map (max 0)
  levels := settings.levels.map (List.map (max 0))

/-- The same settings with the limits under their keys. -/
def asKeys : RuleSettings → RuleSettings
  | ⟨enabled, _, _, some (warning :: rest)⟩ => ⟨enabled, some warning, rest.head?, none⟩
  | settings => settings

theorem levels_asKeys (h : settings.Consistent) : settings.asKeys.levels = none := by
  obtain ⟨enabled, warning, error, _ | _ | ⟨n, rest⟩⟩ := settings
  · rfl
  · have := (h _ rfl).1
    simp at this
  · rfl

theorem gives_asKeys_iff (h : settings.Consistent) {severity : Severity} :
    settings.asKeys.Gives severity n ↔ settings.Gives severity n := by
  obtain ⟨enabled, warning, error, _ | _ | ⟨k, rest⟩⟩ := settings
  · rfl
  · rfl
  · obtain ⟨-, hwarning, herror⟩ := h _ rfl
    simp only at hwarning herror
    subst hwarning herror
    rw [asKeys, gives_keys_iff, List.head?_eq_some_iff]
    constructor
    · rintro (⟨rfl, hn⟩ | ⟨rfl, rest', rfl⟩)
      · cases hn
        exact .first rfl
      · exact .second rfl
    · intro hgives
      cases hgives with
      | warning hn => cases hn
      | error hn => cases hn
      | first hn =>
        cases hn
        exact .inl ⟨rfl, rfl⟩
      | second hn =>
        cases hn
        exact .inr ⟨rfl, _, rfl⟩

end RuleSettings

namespace Levels

open RuleSettings (Consistent Sets asKeys gives_keys_iff)

variable {settings : RuleSettings}

/-- Both forms mean the same, and it does not matter whether the rule runs. -/
theorem ofSettings_levels (enabled enabled' : Option Bool) (warning : Int) (rest : List Int)
    (defaults : Levels) : ofSettings ⟨enabled, none, none, some (warning :: rest)⟩ defaults =
      ofSettings ⟨enabled', some warning, rest.head?, none⟩ defaults := by
  cases rest <;> rfl

theorem ofSettings_asKeys (settings : RuleSettings) (defaults : Levels) :
    ofSettings settings.asKeys defaults = ofSettings settings defaults := by
  obtain ⟨enabled, warning, error, _ | _ | ⟨n, rest⟩⟩ := settings
  · rfl
  · rfl
  · exact (ofSettings_levels enabled enabled n rest defaults).symm

theorem sets_keys (enabled : Option Bool) (warning error : Option Int) (defaults : Levels) :
    Sets ⟨enabled, warning, error, none⟩ defaults
      (ofSettings ⟨enabled, warning, error, none⟩ defaults) := by
  have hnone : RuleSettings.GivesNone ⟨enabled, warning, error, none⟩ ↔
      warning = none ∧ error = none := by
    constructor
    · intro h
      refine ⟨Option.eq_none_iff_forall_ne_some.mpr fun n hn => ?_,
        Option.eq_none_iff_forall_ne_some.mpr fun n hn => ?_⟩
      · exact h .warning n (.warning hn)
      · exact h .error n (.error hn)
    · rintro ⟨rfl, rfl⟩ severity n hgives
      simp [gives_keys_iff] at hgives
  constructor <;> simp only [gives_keys_iff, hnone]
  · cases warning <;> cases error <;> simp [ofSettings, clampLimit_eq_max]
  · cases warning <;> cases error <;> simp [ofSettings]
  · cases warning <;> cases error <;> simp [ofSettings, clampLimit_eq_max]
  · cases warning <;> cases error <;> simp [ofSettings]
  · cases warning <;> cases error <;> simp [ofSettings]

/-- Settings that do not contradict themselves are followed. -/
theorem sets_ofSettings (h : settings.Consistent) (defaults : Levels) :
    settings.Sets defaults (ofSettings settings defaults) := by
  have hkeys : settings.asKeys.Sets defaults (ofSettings settings.asKeys defaults) := by
    have hlevels := RuleSettings.levels_asKeys h
    generalize settings.asKeys = keys at hlevels ⊢
    obtain ⟨enabled, warning, error, levels⟩ := keys
    simp only at hlevels
    subst hlevels
    exact sets_keys enabled warning error defaults
  rw [ofSettings_asKeys] at hkeys
  exact hkeys.congr fun severity n => RuleSettings.gives_asKeys_iff h

/-- Zero does for every negative limit. -/
theorem ofSettings_withoutNegatives (settings : RuleSettings) (defaults : Levels) :
    ofSettings settings.withoutNegatives defaults = ofSettings settings defaults := by
  obtain ⟨enabled, warning, error, levels⟩ := settings
  rcases levels with _ | _ | ⟨n, _ | ⟨m, rest⟩⟩ <;> cases warning <;> cases error <;>
    simp [RuleSettings.withoutNegatives, ofSettings, clampLimit_max]

end Levels

namespace Config

/-- The settings of an accepted configuration do not contradict themselves. -/
theorem consistent_of_ofToml {text : Text} {config : Config} (h : ofToml text = .ok config)
    {rule : String × RuleSettings} (hrule : rule ∈ config.rules) : rule.2.Consistent := by
  rw [ofToml_eq] at h
  cases hparse : Toml.parse? text with
  | none =>
    rw [hparse] at h
    cases h
  | some entries =>
    rw [hparse] at h
    exact (ofTree_eq_ok_iff.mp h).2 rule hrule

/-- Both ways of writing limits mean the same, whether the rule runs or not and whatever the defaults
are: one level is a limit for warnings alone, and two levels are both limits. In a configuration that
is accepted, the thresholds of a rule are one for warnings and after it at most one for errors. Their
limits are those that the settings set, in one form or the other, and no others. Zero in the place
of every negative limit would give the same. -/
theorem limits_exact :
    (∀ enabled enabled' warning error defaults,
      Levels.ofSettings ⟨enabled, none, none, some [warning]⟩ defaults =
          Levels.ofSettings ⟨enabled', some warning, none, none⟩ defaults ∧
        Levels.ofSettings ⟨enabled, none, none, some [warning, error]⟩ defaults =
          Levels.ofSettings ⟨enabled', some warning, some error, none⟩ defaults) ∧
    ∀ text config rule defaults, ofToml text = .ok config → rule ∈ config.rules →
      let limits := Levels.ofSettings rule.2 defaults
      limits.thresholds =
          ⟨.warning, limits.warning⟩ :: (limits.error.map (Threshold.mk .error)).toList ∧
        (∀ levels, rule.2.Sets defaults levels ↔ levels = limits) ∧
        Levels.ofSettings rule.2.withoutNegatives defaults = limits := by
  refine ⟨fun enabled enabled' warning error defaults =>
    ⟨Levels.ofSettings_levels enabled enabled' warning [] defaults,
      Levels.ofSettings_levels enabled enabled' warning [error] defaults⟩,
    fun text config rule defaults hconfig hrule => ⟨rfl, fun levels => ?_,
      Levels.ofSettings_withoutNegatives rule.2 defaults⟩⟩
  have hsets := Levels.sets_ofSettings (consistent_of_ofToml hconfig hrule) defaults
  exact ⟨fun h => h.eq hsets, fun h => h ▸ hsets⟩

def negative : Text :=
  "[rule.a]\nlevels = [-3, 7]\n[rule.b]\nwarning = -2\n[rule.c]\nerror = 5\n".toList

def negativeConfig : Config where
  rules := [("a", ⟨none, none, none, some [-3, 7]⟩), ("b", ⟨none, some (-2), none, none⟩),
    ("c", ⟨none, none, some 5, none⟩)]

theorem ofToml_negative : ofToml negative = .ok negativeConfig := by
  have hparse : Toml.parse? negative = some [("rule", .table
      [("a", .table [("levels", .array [.integer (-3), .integer 7])]),
        ("b", .table [("warning", .integer (-2))]), ("c", .table [("error", .integer 5)])])] := by
    unfold negative
    rewrite [String.toList_ofList]
    rfl
  rw [ofToml, hparse]
  rfl

theorem limits_exact_negative : ofToml negative = .ok negativeConfig ∧
    negativeConfig.rules.map (fun rule => (Levels.ofSettings rule.2 ⟨20, some 100⟩).thresholds) =
      [[⟨.warning, 0⟩, ⟨.error, 7⟩], [⟨.warning, 0⟩], [⟨.warning, 20⟩, ⟨.error, 5⟩]] ∧
    ∀ rule ∈ negativeConfig.rules,
      rule.2.Sets ⟨20, some 100⟩ (Levels.ofSettings rule.2 ⟨20, some 100⟩) ∧
        Levels.ofSettings rule.2.withoutNegatives ⟨20, some 100⟩ =
          Levels.ofSettings rule.2 ⟨20, some 100⟩ := by
  refine ⟨ofToml_negative, by decide, fun rule hrule => ?_⟩
  obtain ⟨-, hsets, hraised⟩ :=
    limits_exact.2 negative negativeConfig rule ⟨20, some 100⟩ ofToml_negative hrule
  exact ⟨(hsets _).mpr rfl, hraised⟩

end Config

end ClosureLint
