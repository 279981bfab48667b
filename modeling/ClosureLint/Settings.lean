import ClosureLint.Severity

/-! What a configuration says about one rule. A limit is written either by its own key or as an
entry of `levels`, which holds the warning limit and perhaps the error limit. -/

namespace ClosureLint

/-- The settings of one rule; an absent key is `none`. -/
structure RuleSettings where
  enabled : Option Bool
  warning : Option Int
  error : Option Int
  levels : Option (List Int)
  deriving DecidableEq, Repr

namespace RuleSettings

def empty : RuleSettings := ⟨none, none, none, none⟩

inductive Conflict where
  /-- `levels` has neither one nor two entries. -/
  | levelCount (count : Nat)
  /-- The limits are given in both forms. -/
  | bothForms
  deriving DecidableEq, Repr

def Conflict.message : Conflict → String
  | .levelCount count =>
    s!"levels: {count} entries given - use [warning] or [warning, error]\n"
  | .bothForms => "use either 'levels' or 'warning'/'error', not both"

/-- Why the settings are refused, if they are. The number of entries is checked first. -/
def conflict? (settings : RuleSettings) : Option Conflict :=
  match settings.levels with
  | none => none
  | some levels =>
    if levels.length ≠ 1 ∧ levels.length ≠ 2 then some (.levelCount levels.length)
    else if settings.warning.isSome || settings.error.isSome then some .bothForms
    else none

end RuleSettings

/-- The limit that a written number stands for: a negative one is as strict as zero. -/
def clampLimit (limit : Int) : Nat := limit.toNat

/-- The limits that settings ask for. A warning limit alone drops the error limit, and an error
limit alone keeps the default warning limit. -/
def Levels.ofSettings (settings : RuleSettings) (defaults : Levels) : Levels :=
  match settings.levels with
  | some (warning :: rest) => ⟨clampLimit warning, rest.head?.map clampLimit⟩
  | _ =>
    if settings.warning.isNone && settings.error.isNone then defaults
    else ⟨(settings.warning.map clampLimit).getD defaults.warning, settings.error.map clampLimit⟩

end ClosureLint
