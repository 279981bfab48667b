import ClosureLint.Proofs.Config.Reading
import ClosureLint.Proofs.Files.Collected
import ClosureLint.Proofs.Files.Components

/-! Which configurations are accepted. A document is malformed if any value that is asked for has the
wrong type, whatever else is wrong with it; otherwise it is accepted if no rule's settings
contradict themselves. Neither of the two readers of the file sees more of it than its own keys,
except that an integer that does not fit 128 bits stops a reader under any key. -/

namespace ClosureLint

/-! ### Acceptance -/

namespace RuleSettings

/-- A rule is accepted: a table of consistent settings, or a date or time, which sets nothing. -/
inductive Accepts : Toml.Value → RuleSettings → Prop
  | table {entries : Toml.Entries} {settings : RuleSettings} : settings.GivenBy entries →
    settings.Consistent → Accepts (.table entries) settings
  | moment : Accepts .moment empty

theorem accepts_iff {value : Toml.Value} {settings : RuleSettings} :
    Accepts value settings ↔ Reads value settings ∧ settings.Consistent := by
  constructor
  · intro h
    cases h with
    | table hgiven hconsistent => exact ⟨.table hgiven, hconsistent⟩
    | moment => exact ⟨.moment, fun _ hlevels => nomatch hlevels⟩
  · rintro ⟨hreads, hconsistent⟩
    cases hreads with
    | table hgiven => exact .table hgiven hconsistent
    | sequence => cases (hconsistent _ rfl).2.1
    | moment => exact .moment

end RuleSettings

namespace Config

variable {entries entries' : Toml.Entries} {config : Config}

/-- The configuration in the value tree of a document. -/
def ofTree (entries : Toml.Entries) : Except ConfigError Config :=
  match ofEntries? entries with
  | none => .error .malformed
  | some config =>
    match config.conflict? with
    | some (name, conflict) => .error (.refused name conflict)
    | none => .ok config

theorem ofToml_eq (text : Text) :
    ofToml text = (Toml.parse? text).elim (.error .malformed) ofTree := by
  rw [ofToml]
  cases Toml.parse? text <;> rfl

/-- What there is to answer to a tree. Which of several rules in conflict is named is left open. -/
inductive Answers (entries : Toml.Entries) : Except ConfigError Config → Prop
  | accepted {config : Config} : Reads entries config →
    (∀ rule ∈ config.rules, rule.2.Consistent) → Answers entries (.ok config)
  | malformed : (∀ config, ¬ Reads entries config) → Answers entries (.error .malformed)
  | refused {config : Config} {name : String} {settings : RuleSettings}
    {conflict : RuleSettings.Conflict} : Reads entries config → (name, settings) ∈ config.rules →
    settings.Conflicts conflict → Answers entries (.error (.refused name conflict))

theorem answers_ofTree (entries : Toml.Entries) : Answers entries (ofTree entries) := by
  rw [ofTree]
  split
  next h =>
    refine .malformed fun config hreads => ?_
    rw [ofEntries?_eq_some_iff.mpr hreads] at h
    cases h
  next config h =>
    have hreads := ofEntries?_eq_some_iff.mp h
    split
    next hconflict =>
      obtain ⟨settings, hmem, hconflicts⟩ := exists_of_conflict?_eq_some hconflict
      exact .refused hreads hmem hconflicts
    next hconflict => exact .accepted hreads (conflict?_eq_none_iff.mp hconflict)

theorem ofTree_eq_ok_iff : ofTree entries = .ok config ↔
    Reads entries config ∧ ∀ rule ∈ config.rules, rule.2.Consistent := by
  constructor
  · intro h
    have := answers_ofTree entries
    rw [h] at this
    cases this with
    | accepted hreads hconsistent => exact ⟨hreads, hconsistent⟩
  · rintro ⟨hreads, hconsistent⟩
    rw [ofTree, ofEntries?_eq_some_iff.mpr hreads]
    simp only
    rw [conflict?_eq_none_iff.mpr hconsistent]

theorem ofTree_eq_malformed_iff :
    ofTree entries = .error .malformed ↔ ∀ config, ¬ Reads entries config := by
  constructor
  · intro h
    have := answers_ofTree entries
    rw [h] at this
    cases this with
    | malformed hnone => exact hnone
  · intro h
    have hnone : ofEntries? entries = none :=
      Option.eq_none_iff_forall_ne_some.mpr fun config hread =>
        h config (ofEntries?_eq_some_iff.mp hread)
    rw [ofTree, hnone]

/-- A tree is accepted as a configuration: `rule` is absent, or a table of which each rule is
accepted. Integers under other keys fit 128 bits. -/
structure Accepts (entries : Toml.Entries) (config : Config) : Prop where
  plain : entries.restPlain ["rule"] = true
  rules : (entries.get? "rule" = none ∧ config.rules = []) ∨
    ∃ rules, entries.get? "rule" = some (.table rules) ∧
      EachRule RuleSettings.Accepts rules config.rules

theorem eachRule_accepts_iff {rules : List (String × Toml.Value)}
    {read : List (String × RuleSettings)} :
    EachRule RuleSettings.Accepts rules read ↔
      EachRule RuleSettings.Reads rules read ∧ ∀ rule ∈ read, rule.2.Consistent := by
  induction rules generalizing read with
  | nil => cases read <;> simp
  | cons rule rules ih =>
    cases read with
    | nil => simp
    | cons first read =>
      simp only [EachRule] at ih ⊢
      rw [List.forall₂_cons, List.forall₂_cons, List.forall_mem_cons, ih, RuleSettings.accepts_iff]
      tauto

theorem ofTree_eq_ok_iff_accepts : ofTree entries = .ok config ↔ Accepts entries config := by
  rw [ofTree_eq_ok_iff]
  constructor
  · rintro ⟨⟨hplain, habsent | ⟨rules, htable, hreads⟩⟩, hconsistent⟩
    · exact ⟨hplain, .inl habsent⟩
    · exact ⟨hplain, .inr ⟨rules, htable, eachRule_accepts_iff.mpr ⟨hreads, hconsistent⟩⟩⟩
  · rintro ⟨hplain, ⟨habsent, hnone⟩ | ⟨rules, htable, haccepts⟩⟩
    · refine ⟨⟨hplain, .inl ⟨habsent, hnone⟩⟩, fun rule hrule => ?_⟩
      rw [hnone] at hrule
      cases hrule
    · obtain ⟨hreads, hconsistent⟩ := eachRule_accepts_iff.mp haccepts
      exact ⟨⟨hplain, .inr ⟨rules, htable, hreads⟩⟩, hconsistent⟩

theorem ofTree_eq_malformed {rules : Toml.Entries} {rule : String × Toml.Value}
    (htable : entries.get? "rule" = some (.table rules)) (hrule : rule ∈ rules)
    (hwrong : ∀ settings, ¬ RuleSettings.Reads rule.2 settings) :
    ofTree entries = .error .malformed := by
  refine ofTree_eq_malformed_iff.mpr fun config hreads => ?_
  obtain ⟨read, -, hread⟩ := hreads.exists_of_mem htable hrule
  exact hwrong read.2 hread

/-- A rule in the form of an array is never accepted. -/
theorem ofTree_ne_ok {rules : Toml.Entries} {name : String} {items : List Toml.Value}
    (htable : entries.get? "rule" = some (.table rules)) (hrule : (name, .array items) ∈ rules) :
    ofTree entries ≠ .ok config := by
  intro h
  obtain ⟨hreads, hconsistent⟩ := ofTree_eq_ok_iff.mp h
  obtain ⟨read, hmem, hread⟩ := hreads.exists_of_mem htable hrule
  exact hread.not_consistent (hconsistent read hmem)

end Config

/-! ### What the readers do not see -/

namespace Toml.Entries

variable {known : List String} {entries entries' : Entries}

/-- The entries agree on the known keys, and on whether all values elsewhere can be ignored. -/
structure Agree (known : List String) (entries entries' : Entries) : Prop where
  values : ∀ key ∈ known, entries'.get? key = entries.get? key
  plain : entries'.restPlain known = entries.restPlain known

theorem Agree.optional?_eq {α : Type} (h : Agree known entries entries') {key : String}
    (hkey : key ∈ known) (read? : Value → Option α) :
    entries'.optional? key read? = entries.optional? key read? := by
  rw [optional?, h.values key hkey, optional?]

end Toml.Entries

theorem RuleSettings.ofEntries?_eq_of_agree {entries entries' : Toml.Entries}
    (h : entries.Agree keys entries') : ofEntries? entries' = ofEntries? entries := by
  simp only [keys] at h
  simp only [ofEntries?, h.optional?_eq, h.plain, List.mem_cons, true_or, or_true]

theorem ReportSettings.ofEntries?_eq_of_agree {entries entries' : Toml.Entries}
    (h : entries.Agree ["format", "strict"] entries') :
    ofEntries? entries' = ofEntries? entries := by
  simp only [ofEntries?, h.optional?_eq, h.plain, List.mem_cons, true_or, or_true]

/-- Values of a rule that differ at most under keys that no setting has. -/
inductive RuleSettings.Alike : Toml.Value → Toml.Value → Prop
  | same (value : Toml.Value) : Alike value value
  | tables {entries entries' : Toml.Entries} : entries.Agree keys entries' →
    Alike (.table entries) (.table entries')

theorem RuleSettings.Alike.ofValue?_eq {value value' : Toml.Value} (h : Alike value value') :
    ofValue? value' = ofValue? value := by
  cases h with
  | same => rfl
  | tables hagree => exact ofEntries?_eq_of_agree hagree

namespace Config

variable {entries entries' : Toml.Entries}

/-- The trees have the same rules in the same order, up to keys that no setting has. -/
structure SameRules (entries entries' : Toml.Entries) : Prop where
  plain : entries'.restPlain ["rule"] = entries.restPlain ["rule"]
  rules : entries'.get? "rule" = entries.get? "rule" ∨
    ∃ rules rules', entries.get? "rule" = some (.table rules) ∧
      entries'.get? "rule" = some (.table rules') ∧
      List.Forall₂ (fun rule rule' => rule'.1 = rule.1 ∧ RuleSettings.Alike rule.2 rule'.2) rules
        rules'

theorem mapM_ofValue?_eq_of_alike {rules rules' : List (String × Toml.Value)}
    (h : List.Forall₂ (fun rule rule' => rule'.1 = rule.1 ∧ RuleSettings.Alike rule.2 rule'.2) rules
      rules') :
    (rules'.mapM fun (name, value) => (RuleSettings.ofValue? value).map (name, ·)) =
      rules.mapM fun (name, value) => (RuleSettings.ofValue? value).map (name, ·) := by
  induction h with
  | nil => rfl
  | cons hrule _ ih => simp only [List.mapM_cons, ih, hrule.1, hrule.2.ofValue?_eq]

theorem SameRules.ofTree_eq (h : SameRules entries entries') :
    ofTree entries' = ofTree entries := by
  have hread : ofEntries? entries' = ofEntries? entries := by
    rw [ofEntries?, ofEntries?, h.plain]
    rcases h.rules with hrule | ⟨rules, rules', htable, htable', hforall⟩
    · rw [hrule]
    · simp only [htable, htable', mapM_ofValue?_eq_of_alike hforall]
  rw [ofTree, ofTree, hread]

/-- The trees have the same rules in two orders. -/
structure Reorders (entries entries' : Toml.Entries) : Prop where
  plain : entries'.restPlain ["rule"] = entries.restPlain ["rule"]
  rules : ∃ rules rules', entries.get? "rule" = some (.table rules) ∧
    entries'.get? "rule" = some (.table rules') ∧ rules.Perm rules'

theorem Reorders.symm (h : Reorders entries entries') : Reorders entries' entries := by
  obtain ⟨hplain, rules, rules', htable, htable', hperm⟩ := h
  exact ⟨hplain.symm, rules', rules, htable', htable, hperm.symm⟩

theorem Reorders.reads (h : Reorders entries entries') {config : Config}
    (hreads : Reads entries config) :
    ∃ config', Reads entries' config' ∧ config.rules.Perm config'.rules := by
  obtain ⟨hplain, rules, rules', htable, htable', hperm⟩ := h
  have hforall := hreads.eachRule htable
  obtain ⟨read', hforall', hperm'⟩ := List.perm_comp_forall₂ hperm.symm hforall
  exact ⟨⟨read'⟩, ⟨hplain.trans hreads.plain, .inr ⟨rules', htable', hforall'⟩⟩, hperm'.symm⟩

theorem Reorders.ofTree_eq_ok (h : Reorders entries entries') {config : Config}
    (hok : ofTree entries = .ok config) :
    ∃ config', ofTree entries' = .ok config' ∧ config.rules.Perm config'.rules := by
  obtain ⟨hreads, hconsistent⟩ := ofTree_eq_ok_iff.mp hok
  obtain ⟨config', hreads', hperm⟩ := h.reads hreads
  exact ⟨config', ofTree_eq_ok_iff.mpr
    ⟨hreads', fun rule hrule => hconsistent rule (hperm.mem_iff.mpr hrule)⟩, hperm⟩

theorem Reorders.ofTree_eq_malformed (h : Reorders entries entries')
    (hmalformed : ofTree entries = .error .malformed) : ofTree entries' = .error .malformed := by
  refine ofTree_eq_malformed_iff.mpr fun config' hreads' => ?_
  obtain ⟨config, hreads, -⟩ := h.symm.reads hreads'
  exact ofTree_eq_malformed_iff.mp hmalformed config hreads

end Config

/-- The value tree of the file at a path. -/
def FileSystem.tree? (files : FileSystem) (path : Path) : Option Toml.Entries :=
  (files.readText path).toOption.bind Toml.parse?

namespace ReportSettings

variable {files files' : FileSystem} {given : Option Path} {entries entries' : Toml.Entries}

theorem load_of_tree? (h : files.tree? (given.getD ConfigFile.path) = some entries) :
    load files given = (ofEntries? entries).elim
      (.error (.malformed (given.getD ConfigFile.path))) .ok := by
  obtain ⟨text, htext, hparse⟩ := Option.bind_eq_some_iff.mp h
  have hread : files.readText (given.getD ConfigFile.path) = .ok text := by
    cases hread : files.readText (given.getD ConfigFile.path) with
    | error error =>
      rw [hread] at htext
      cases htext
    | ok text' =>
      rw [hread] at htext
      cases htext
      rfl
  have hexists : files.exists? (given.getD ConfigFile.path) = true := by
    rw [FileSystem.exists?]
    cases hnode : files.node (given.getD ConfigFile.path) with
    | error error =>
      rw [FileSystem.readText, FileSystem.read, hnode] at hread
      cases hread
    | ok node => rfl
  simp only [load, hexists, hread, ofToml?, hparse, Option.bind_some]
  cases ofEntries? entries <;> rfl

/-- How findings are written depends on what the file says under two keys only. -/
theorem load_eq (htree : files.tree? (given.getD ConfigFile.path) = some entries)
    (htree' : files'.tree? (given.getD ConfigFile.path) = some entries')
    (hagree : entries.Agree ["format", "strict"] entries') :
    load files' given = load files given := by
  rw [load_of_tree? htree, load_of_tree? htree', ofEntries?_eq_of_agree hagree]

end ReportSettings

namespace Config

/-- Which configurations are accepted. The answer to a text depends on its value tree alone: the
tree is accepted with the settings it gives, it is malformed, or a rule is refused for a conflict of
its own; where it has both, for the number of its levels. A rule in the form of an array is never
accepted, and one that has none of the forms makes the whole malformed, whatever the others say. Keys
of no setting and keys beside `rule` have no say, nor has the order of the rules in acceptance; and
the other reader sees no more than `format` and `strict`. -/
theorem accepted_exactly :
    (∀ text, ofToml text = (Toml.parse? text).elim (.error .malformed) ofTree) ∧
    (∀ entries, Answers entries (ofTree entries)) ∧
    (∀ entries config, ofTree entries = .ok config ↔ Accepts entries config) ∧
    (∀ entries rules rule, entries.get? "rule" = some (.table rules) → rule ∈ rules →
      (∀ items, rule.2 = .array items → ∀ config, ofTree entries ≠ .ok config) ∧
      ((∀ settings, ¬ RuleSettings.Reads rule.2 settings) →
        ofTree entries = .error .malformed)) ∧
    (∀ entries entries', SameRules entries entries' → ofTree entries' = ofTree entries) ∧
    (∀ entries entries', Reorders entries entries' →
      (∀ config, ofTree entries = .ok config →
        ∃ config', ofTree entries' = .ok config' ∧ config.rules.Perm config'.rules) ∧
      (ofTree entries = .error .malformed → ofTree entries' = .error .malformed)) ∧
    ∀ (files files' : FileSystem) (given : Option Path) (entries entries' : Toml.Entries),
      files.tree? (given.getD ConfigFile.path) = some entries →
      files'.tree? (given.getD ConfigFile.path) = some entries' →
      entries.Agree ["format", "strict"] entries' →
      ReportSettings.load files' given = ReportSettings.load files given := by
  refine ⟨ofToml_eq, answers_ofTree, fun _ _ => ofTree_eq_ok_iff_accepts,
    fun entries rules rule htable hrule => ⟨fun items hitems config => ?_, ?_⟩,
    fun _ _ h => h.ofTree_eq, fun _ _ h => ⟨fun _ => h.ofTree_eq_ok, h.ofTree_eq_malformed⟩,
    fun _ _ _ _ _ => ReportSettings.load_eq⟩
  · obtain ⟨name, value⟩ := rule
    cases hitems
    exact ofTree_ne_ok htable hrule
  · exact ofTree_eq_malformed htable hrule

/-- Two rules, one with a key that no setting has, beside a key of the other reader. -/
def noted : Toml.Entries :=
  [("rule", .table [("a", .table [("levels", .array [.integer 3]), ("note", .float)]),
    ("b", .table [])]), ("strict", .integer 1)]

def bare : Toml.Entries :=
  [("rule", .table [("a", .table [("levels", .array [.integer 3])]), ("b", .table [])])]

def swapped : Toml.Entries :=
  [("rule", .table [("b", .table []), ("a", .table [("levels", .array [.integer 3])])])]

/-- A rule without levels in the table that gives them, one in the form of an array, and one in no
form at all. -/
def spoilt : Toml.Entries :=
  [("rule", .table [("a", .table [("levels", .array [])]),
    ("b", .array [.boolean true, .integer 1, .integer 2, .array [.integer 3]]), ("c", .float)])]

def document : Text := "format = \"json\"\nrule = \"none\"\n".toList

def shortDocument : Text := "format = \"json\"\n".toList

theorem parse?_document :
    Toml.parse? document = some [("format", .text "json"), ("rule", .text "none")] ∧
      Toml.parse? shortDocument = some [("format", .text "json")] := by
  unfold document shortDocument
  rewrite [String.toList_ofList, String.toList_ofList]
  exact ⟨rfl, rfl⟩

def directoryOf (text : Text) : FileSystem :=
  ⟨.directory [(ConfigFile.name, .file (.text text))], []⟩

theorem tree?_directoryOf (text : Text) :
    (directoryOf text).tree? ConfigFile.path = Toml.parse? text := by
  have hnode : (directoryOf text).node ConfigFile.path = .ok (.file (.text text)) := by
    refine FileSystem.node_eq_ok_iff.mpr ⟨[ConfigFile.name], ?_, rfl⟩
    rw [FileSystem.resolve_path]
    rfl
  rw [FileSystem.tree?, FileSystem.readText, FileSystem.read, hnode]
  rfl

theorem accepted_exactly_noted :
    ofTree noted = ofTree bare ∧
    Accepts noted ⟨[("a", ⟨none, none, none, some [3]⟩), ("b", .empty)]⟩ ∧
    (∃ config, ofTree swapped = .ok config ∧
      [("a", ⟨none, none, none, some [3]⟩), ("b", .empty)].Perm config.rules) ∧
    (∀ config, ofTree spoilt ≠ .ok config) ∧ ofTree spoilt = .error .malformed ∧
    ReportSettings.load (directoryOf document) none =
      ReportSettings.load (directoryOf shortDocument) none := by
  obtain ⟨-, -, haccepts, hrule, hsame, horder, hload⟩ := accepted_exactly
  have hagree : Toml.Entries.Agree RuleSettings.keys [("levels", .array [.integer 3])]
      [("levels", .array [.integer 3]), ("note", .float)] :=
    ⟨by simp [RuleSettings.keys, Toml.Entries.get?, List.lookup], rfl⟩
  have hnoted : SameRules bare noted :=
    ⟨rfl, .inr ⟨_, _, rfl, rfl, .cons ⟨rfl, .tables hagree⟩ (.cons ⟨rfl, .same _⟩ .nil)⟩⟩
  have hswapped : Reorders bare swapped := ⟨rfl, _, _, rfl, rfl, .swap _ _ _⟩
  have hbare : ofTree bare = .ok ⟨[("a", ⟨none, none, none, some [3]⟩), ("b", .empty)]⟩ := rfl
  have hlisted := hrule spoilt _ ("b", .array [.boolean true, .integer 1, .integer 2,
    .array [.integer 3]]) rfl (by simp)
  have hwrong := hrule spoilt _ ("c", .float) rfl (by simp)
  refine ⟨hsame _ _ hnoted, (haccepts _ _).mp ((hsame _ _ hnoted).trans hbare),
    (horder _ _ hswapped).1 _ hbare, hlisted.1 _ rfl, hwrong.2 fun settings => nofun, ?_⟩
  exact hload _ _ none _ _ ((tree?_directoryOf _).trans parse?_document.2)
    ((tree?_directoryOf _).trans parse?_document.1) ⟨by simp [Toml.Entries.get?, List.lookup], rfl⟩

def dated : Text := "rule.x = 1979-05-27\n".toList

/-- An integer that no reader takes, under a key that none asks for. -/
def huge : Text := "x = 1000000000000000000000000000000000000000000\n".toList

theorem parse?_dated : Toml.parse? dated = some [("rule", .table [("x", .moment)])] := by
  unfold dated
  rewrite [String.toList_ofList]
  rfl

theorem parse?_huge : Toml.parse? huge = some [("x", .integer (10 ^ 42))] := by
  unfold huge
  rewrite [String.toList_ofList]
  rfl

/-- Not only tables are accepted as rules, and keys that a reader does not ask for can stop it. -/
theorem not_only_tables :
    (¬ ∀ text entries rules config rule, Toml.parse? text = some entries →
      ofToml text = .ok config → entries.get? "rule" = some (.table rules) → rule ∈ rules →
      ∃ table, rule.2 = .table table) ∧
    (¬ ∀ text entries, Toml.parse? text = some entries → entries.get? "rule" = none →
      ofToml text = .ok ⟨[]⟩) ∧
    ¬ ∀ text entries, Toml.parse? text = some entries → entries.get? "format" = none →
      entries.get? "strict" = none → ReportSettings.ofToml? text = some ⟨none, none⟩ := by
  have hdated : ofToml dated = .ok ⟨[("x", .empty)]⟩ := by
    rw [ofToml, parse?_dated]
    rfl
  have hhuge : ofToml huge = .error .malformed := by
    rw [ofToml, parse?_huge]
    rfl
  refine ⟨fun h => ?_, fun h => ?_, fun h => ?_⟩
  · obtain ⟨table, htable⟩ := h dated _ [("x", .moment)] _ ("x", .moment) parse?_dated hdated rfl
      (List.mem_singleton_self _)
    cases htable
  · have haccepted := h huge _ parse?_huge rfl
    rw [hhuge] at haccepted
    cases haccepted
  · have haccepted := h huge _ parse?_huge rfl rfl
    rw [ReportSettings.ofToml?, parse?_huge] at haccepted
    cases haccepted

end Config

end ClosureLint
