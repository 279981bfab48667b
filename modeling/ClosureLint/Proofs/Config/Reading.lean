import ClosureLint.ConfigFile
import Mathlib.Data.List.Perm.Basic
import Mathlib.Data.Option.Basic

/-! What the reader of the configuration makes of a document's value tree, told as relations: which
settings the keys of a rule's table give, which forms a rule may have besides, which trees have
rules, and which settings contradict themselves. The reader finds exactly what is so related. -/

namespace ClosureLint

namespace Toml

namespace Value

variable {value : Value}

theorem boolean?_eq_some_iff {b : Bool} : value.boolean? = some b ↔ value = .boolean b := by
  cases value <;> simp [boolean?]

theorem integer?_eq_some_iff {n : Int} :
    value.integer? = some n ↔ value = .integer n ∧ fitsSigned 64 n = true := by
  cases value with
  | integer k =>
    rw [integer?, Option.ite_none_right_eq_some, Option.some.injEq, integer.injEq]
    exact ⟨fun ⟨hfits, hk⟩ => ⟨hk, hk ▸ hfits⟩, fun ⟨hk, hfits⟩ => ⟨hk ▸ hfits, hk⟩⟩
  | _ => simp [integer?]

theorem mapM_integer?_eq_some_iff {items : List Value} {ns : List Int} :
    items.mapM integer? = some ns ↔
      items = ns.map .integer ∧ ∀ n ∈ ns, fitsSigned 64 n = true := by
  induction items generalizing ns with
  | nil => cases ns <;> simp
  | cons item items ih =>
    simp only [List.mapM_cons, Option.bind_eq_bind, Option.pure_def, Option.bind_eq_some_iff,
      integer?_eq_some_iff, ih, Option.some.injEq]
    constructor
    · rintro ⟨n, ⟨rfl, hn⟩, ns, ⟨rfl, hns⟩, rfl⟩
      exact ⟨rfl, List.forall_mem_cons.mpr ⟨hn, hns⟩⟩
    · rintro ⟨hitems, hfits⟩
      cases ns with
      | nil => cases hitems
      | cons n ns =>
        rw [List.map_cons, List.cons.injEq] at hitems
        obtain ⟨rfl, rfl⟩ := hitems
        obtain ⟨hn, hns⟩ := List.forall_mem_cons.mp hfits
        exact ⟨n, ⟨rfl, hn⟩, ns, ⟨rfl, hns⟩, rfl⟩

theorem integers?_eq_some_iff {ns : List Int} : value.integers? = some ns ↔
    value = .array (ns.map .integer) ∧ ∀ n ∈ ns, fitsSigned 64 n = true := by
  cases value with
  | array items => rw [integers?, mapM_integer?_eq_some_iff, array.injEq]
  | _ => simp [integers?]

end Value

/-- A key that may be absent holds what its reader reads. -/
theorem Entries.optional?_eq_some_iff {α : Type} {read? : Value → Option α} {write : α → Value}
    {fits : α → Prop} (h : ∀ value a, read? value = some a ↔ value = write a ∧ fits a)
    {entries : Entries} {key : String} {setting : Option α} :
    entries.optional? key read? = some setting ↔
      entries.get? key = setting.map write ∧ ∀ a ∈ setting, fits a := by
  rw [optional?]
  cases entries.get? key with
  | none => cases setting <;> simp
  | some value =>
    simp only [Option.map_eq_some_iff, h]
    cases setting <;> simp

end Toml

namespace RuleSettings

def keys : List String := ["enabled", "warning", "error", "levels"]

/-- The limits that settings give in either form. -/
def limits (settings : RuleSettings) : List Int :=
  settings.warning.toList ++ settings.error.toList ++ settings.levels.getD []

theorem forall_mem_limits {settings : RuleSettings} {p : Int → Prop} :
    (∀ limit ∈ settings.limits, p limit) ↔
      (∀ limit ∈ settings.warning, p limit) ∧ (∀ limit ∈ settings.error, p limit) ∧
        ∀ levels ∈ settings.levels, ∀ limit ∈ levels, p limit := by
  obtain ⟨-, warning, error, levels⟩ := settings
  cases warning <;> cases error <;> cases levels <;> simp [limits]

/-- The entries of a table give the settings: each of the four keys is absent where the setting is,
and holds it otherwise; the limits are integers of 64 bits, and integers under other keys fit 128
bits. -/
structure GivenBy (settings : RuleSettings) (entries : Toml.Entries) : Prop where
  enabled : entries.get? "enabled" = settings.enabled.map .boolean
  warning : entries.get? "warning" = settings.warning.map .integer
  error : entries.get? "error" = settings.error.map .integer
  levels : entries.get? "levels" = settings.levels.map fun limits => .array (limits.map .integer)
  fits : ∀ limit ∈ settings.limits, fitsSigned 64 limit = true
  plain : entries.restPlain keys = true

theorem ofEntries?_eq_some_iff {entries : Toml.Entries} {settings : RuleSettings} :
    ofEntries? entries = some settings ↔ settings.GivenBy entries := by
  obtain ⟨enabled, warning, error, levels⟩ := settings
  have hboolean : ∀ (value : Toml.Value) (b : Bool),
      value.boolean? = some b ↔ value = .boolean b ∧ True := by
    simp [Toml.Value.boolean?_eq_some_iff]
  simp only [ofEntries?, Option.bind_eq_bind, Option.bind_eq_some_iff, Option.guard_eq_some',
    Toml.Entries.optional?_eq_some_iff hboolean,
    Toml.Entries.optional?_eq_some_iff fun _ _ => Toml.Value.integer?_eq_some_iff,
    Toml.Entries.optional?_eq_some_iff fun _ _ => Toml.Value.integers?_eq_some_iff,
    Option.some.injEq, mk.injEq]
  constructor
  · rintro ⟨_, ⟨henabled, -⟩, _, ⟨hwarning, hw⟩, _, ⟨herror, he⟩, _, ⟨hlevels, hl⟩, -, hplain, rfl,
      rfl, rfl, rfl⟩
    exact ⟨henabled, hwarning, herror, hlevels, forall_mem_limits.mpr ⟨hw, he, hl⟩, hplain⟩
  · intro h
    obtain ⟨hw, he, hl⟩ := forall_mem_limits.mp h.fits
    exact ⟨_, ⟨h.enabled, fun _ _ => trivial⟩, _, ⟨h.warning, hw⟩, _, ⟨h.error, he⟩, _,
      ⟨h.levels, hl⟩, (), h.plain, rfl, rfl, rfl, rfl⟩

/-- The forms that a rule may have: a table, an array that begins with all four settings, and a date
or time, which counts as a table without any of the keys. -/
inductive Reads : Toml.Value → RuleSettings → Prop
  | table {entries : Toml.Entries} {settings : RuleSettings} :
    settings.GivenBy entries → Reads (.table entries) settings
  | sequence {enabled : Bool} {warning error : Int} {levels : List Int}
    {others : List Toml.Value} :
    (∀ limit ∈ limits ⟨some enabled, some warning, some error, some levels⟩,
      fitsSigned 64 limit = true) →
      Reads (.array (.boolean enabled :: .integer warning :: .integer error ::
        .array (levels.map .integer) :: others))
        ⟨some enabled, some warning, some error, some levels⟩
  | moment : Reads .moment empty

theorem ofValue?_eq_some_iff {value : Toml.Value} {settings : RuleSettings} :
    ofValue? value = some settings ↔ Reads value settings := by
  constructor
  · intro h
    unfold ofValue? at h
    split at h
    case h_1 => exact .table (ofEntries?_eq_some_iff.mp h)
    case h_2 =>
      cases h
      exact .moment
    case h_3 =>
      simp only [Option.bind_eq_bind, Option.bind_eq_some_iff, Toml.Value.boolean?_eq_some_iff,
        Toml.Value.integer?_eq_some_iff, Toml.Value.integers?_eq_some_iff, Option.some.injEq] at h
      obtain ⟨_, rfl, _, ⟨rfl, hw⟩, _, ⟨rfl, he⟩, _, ⟨rfl, hl⟩, rfl⟩ := h
      exact .sequence (forall_mem_limits.mpr (by simp [hw, he]; exact hl))
    case h_4 => cases h
  · intro h
    cases h with
    | table h => exact ofEntries?_eq_some_iff.mpr h
    | moment => rfl
    | sequence h =>
      obtain ⟨hw, he, hl⟩ := forall_mem_limits.mp h
      simp only [ofValue?, Option.bind_eq_bind, Option.bind_eq_some_iff, Option.some.injEq]
      exact ⟨_, rfl, _, Toml.Value.integer?_eq_some_iff.mpr ⟨rfl, hw _ rfl⟩, _,
        Toml.Value.integer?_eq_some_iff.mpr ⟨rfl, he _ rfl⟩, _,
        Toml.Value.integers?_eq_some_iff.mpr ⟨rfl, hl _ rfl⟩, rfl⟩

/-- `levels`, where it is given, has one or two entries and neither of the other limits beside
it. -/
def Consistent (settings : RuleSettings) : Prop :=
  ∀ levels, settings.levels = some levels → (levels.length = 1 ∨ levels.length = 2) ∧
    settings.warning = none ∧ settings.error = none

/-- What is wrong with settings. Of two reasons, the number of entries is the one that counts. -/
inductive Conflicts (settings : RuleSettings) : Conflict → Prop
  | levelCount {levels : List Int} : settings.levels = some levels → levels.length ≠ 1 →
    levels.length ≠ 2 → Conflicts settings (.levelCount levels.length)
  | bothForms {levels : List Int} : settings.levels = some levels →
    (levels.length = 1 ∨ levels.length = 2) →
    ¬ (settings.warning = none ∧ settings.error = none) → Conflicts settings .bothForms

theorem conflict?_eq_some_iff {settings : RuleSettings} {conflict : Conflict} :
    settings.conflict? = some conflict ↔ Conflicts settings conflict := by
  constructor
  · intro h
    rw [conflict?] at h
    split at h
    next => cases h
    next levels hlevels =>
      split at h
      next hcount =>
        cases h
        exact .levelCount hlevels hcount.1 hcount.2
      next hcount =>
        obtain ⟨hboth, hconflict⟩ := Option.ite_none_right_eq_some.mp h
        cases hconflict
        refine .bothForms hlevels (by omega) ?_
        rintro ⟨hwarning, herror⟩
        rw [hwarning, herror] at hboth
        cases hboth
  · intro h
    cases h with
    | levelCount hlevels hone htwo =>
      rw [conflict?, hlevels]
      exact if_pos ⟨hone, htwo⟩
    | bothForms hlevels hcount hboth =>
      have hgiven : (settings.warning.isSome || settings.error.isSome) = true := by
        cases hwarning : settings.warning <;> cases herror : settings.error <;> simp_all
      rw [conflict?, hlevels]
      simp only
      rw [if_neg (by omega), if_pos hgiven]

theorem conflict?_eq_none_iff {settings : RuleSettings} :
    settings.conflict? = none ↔ Consistent settings := by
  rw [Option.eq_none_iff_forall_ne_some]
  constructor
  · intro h levels hlevels
    have hcount : levels.length = 1 ∨ levels.length = 2 := by
      by_contra hcount
      rw [not_or] at hcount
      exact h _ (conflict?_eq_some_iff.mpr (.levelCount hlevels hcount.1 hcount.2))
    refine ⟨hcount, ?_⟩
    by_contra hboth
    exact h _ (conflict?_eq_some_iff.mpr (.bothForms hlevels hcount hboth))
  · intro h conflict hconflict
    cases conflict?_eq_some_iff.mp hconflict with
    | levelCount hlevels hone htwo => exact (h _ hlevels).1.elim hone htwo
    | bothForms hlevels hcount hboth => exact hboth (h _ hlevels).2

/-- A rule in the form of an array gives its limits in both forms. -/
theorem Reads.not_consistent {items : List Toml.Value} {settings : RuleSettings}
    (h : Reads (.array items) settings) : ¬ Consistent settings := by
  cases h
  exact fun hconsistent => by cases (hconsistent _ rfl).2.1

end RuleSettings

namespace Config

/-- The rules in the entries of a table are in the relation to the settings of the same names. -/
abbrev EachRule (r : Toml.Value → RuleSettings → Prop) :
    List (String × Toml.Value) → List (String × RuleSettings) → Prop :=
  List.Forall₂ fun rule read => rule.1 = read.1 ∧ r rule.2 read.2

/-- What the reader makes of the value tree of a document: `rule` is absent, or a table that holds a
form of each rule. Integers under other keys fit 128 bits. -/
structure Reads (entries : Toml.Entries) (config : Config) : Prop where
  plain : entries.restPlain ["rule"] = true
  rules : (entries.get? "rule" = none ∧ config.rules = []) ∨
    ∃ rules, entries.get? "rule" = some (.table rules) ∧
      EachRule RuleSettings.Reads rules config.rules

variable {entries rules : Toml.Entries} {config : Config}

theorem Reads.eachRule (h : Reads entries config)
    (htable : entries.get? "rule" = some (.table rules)) :
    EachRule RuleSettings.Reads rules config.rules := by
  rcases h.rules with ⟨habsent, -⟩ | ⟨rules', htable', hforall⟩
  · rw [htable] at habsent
    cases habsent
  · rw [htable] at htable'
    cases htable'
    exact hforall

theorem Reads.exists_of_mem (h : Reads entries config)
    (htable : entries.get? "rule" = some (.table rules)) {rule : String × Toml.Value}
    (hrule : rule ∈ rules) : ∃ read ∈ config.rules, RuleSettings.Reads rule.2 read.2 := by
  have hforall := h.eachRule htable
  obtain ⟨i, hi, rfl⟩ := List.getElem_of_mem hrule
  have hi' : i < config.rules.length := hforall.length_eq ▸ hi
  exact ⟨config.rules[i], List.getElem_mem hi', (hforall.get hi hi').2⟩

theorem mapM_ofValue?_eq_some_iff {rules : List (String × Toml.Value)}
    {read : List (String × RuleSettings)} :
    (rules.mapM fun (name, value) => (RuleSettings.ofValue? value).map (name, ·)) = some read ↔
      EachRule RuleSettings.Reads rules read := by
  induction rules generalizing read with
  | nil => cases read <;> simp
  | cons rule rules ih =>
    simp only [List.mapM_cons, Option.bind_eq_bind, Option.pure_def, Option.bind_eq_some_iff,
      Option.map_eq_some_iff, RuleSettings.ofValue?_eq_some_iff, ih, Option.some.injEq]
    constructor
    · rintro ⟨_, ⟨settings, hsettings, rfl⟩, read, hread, rfl⟩
      exact .cons ⟨rfl, hsettings⟩ hread
    · rintro (_ | @⟨_, first, _, read, ⟨hname, hsettings⟩, hread⟩)
      exact ⟨_, ⟨_, hsettings, rfl⟩, _, hread, by rw [hname]⟩

theorem ofEntries?_eq_some_iff :
    ofEntries? entries = some config ↔ Reads entries config := by
  obtain ⟨read⟩ := config
  simp only [ofEntries?, Option.bind_eq_bind, Option.bind_eq_some_iff, Option.guard_eq_some']
  constructor
  · rintro ⟨-, hplain, h⟩
    refine ⟨hplain, ?_⟩
    split at h
    next habsent =>
      cases h
      exact .inl ⟨habsent, rfl⟩
    next rules htable =>
      obtain ⟨_, hread, heq⟩ := Option.bind_eq_some_iff.mp h
      cases heq
      exact .inr ⟨rules, htable, mapM_ofValue?_eq_some_iff.mp hread⟩
    next => cases h
  · rintro ⟨hplain, ⟨habsent, hread⟩ | ⟨rules, htable, hread⟩⟩
    · refine ⟨(), hplain, ?_⟩
      simp only at hread
      rw [habsent, hread]
    · refine ⟨(), hplain, ?_⟩
      rw [htable]
      exact Option.bind_eq_some_iff.mpr ⟨_, mapM_ofValue?_eq_some_iff.mpr hread, rfl⟩

theorem conflict?_eq_none_iff :
    config.conflict? = none ↔ ∀ rule ∈ config.rules, rule.2.Consistent := by
  simp only [conflict?, List.findSome?_eq_none_iff, Option.map_eq_none_iff,
    RuleSettings.conflict?_eq_none_iff]

theorem exists_of_conflict?_eq_some {name : String}
    {conflict : RuleSettings.Conflict} (h : config.conflict? = some (name, conflict)) :
    ∃ settings, (name, settings) ∈ config.rules ∧ settings.Conflicts conflict := by
  obtain ⟨rule, hrule, hconflict⟩ := List.exists_of_findSome?_eq_some h
  obtain ⟨_, hconflict, heq⟩ := Option.map_eq_some_iff.mp hconflict
  cases heq
  exact ⟨rule.2, hrule, RuleSettings.conflict?_eq_some_iff.mp hconflict⟩

end Config

end ClosureLint
