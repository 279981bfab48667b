import ClosureLint.Command.Run
import ClosureLint.Proofs.Files.Written

/-! What a run changes in the tree. Only `init` writes, only one file, and only if it succeeds; a file
that is there already stays unless the arguments say otherwise. -/

namespace ClosureLint

/-! ### Options in the arguments -/

namespace SortedArguments

variable {command : CommandName} {sorted result : SortedArguments} {arguments : List String}

theorem flags_addOperands {operands : List String}
    (h : sorted.addOperands command operands = .ok result) : result.flags = sorted.flags := by
  unfold addOperands at h
  simp only at h
  split at h
  · rw [← Except.ok.inj h]
  · cases h

theorem flags_setConfig {value : String} (h : sorted.setConfig value = .ok result) :
    result.flags = sorted.flags := by
  unfold setConfig at h
  split at h
  · cases h
  · rw [← Except.ok.inj h]

theorem flags_addFlag {flag : String} (h : sorted.addFlag command flag = .ok result) :
    result.flags = sorted.flags ++ [flag] := by
  unfold addFlag at h
  split at h
  · cases h
  · split at h
    · rw [← Except.ok.inj h]
    · cases h

theorem eq_of_splitValue {argument flag : String} (h : splitValue argument = (flag, none)) :
    flag = argument := by
  rw [splitValue, List.span_eq_takeWhile_dropWhile] at h
  split at h
  next name hspan =>
    obtain ⟨htake, hdrop⟩ := Prod.mk.inj hspan
    have hwhole := List.takeWhile_append_dropWhile (p := fun c => decide (c ≠ '='))
      (l := argument.toList)
    rw [htake, hdrop, List.append_nil] at hwhole
    rw [← (Prod.mk.inj h).1, hwhole, String.ofList_toList]
  next => simp at h

theorem mem_of_mem_flags (h : sort command sorted arguments = .ok result) {flag : String}
    (hflag : flag ∈ result.flags) : flag ∈ sorted.flags ∨ flag ∈ arguments := by
  induction sorted, arguments using sort.induct command with
  | case1 sorted =>
    obtain rfl := Except.ok.inj h
    exact .inl hflag
  | case2 sorted rest =>
    simp only [sort.eq_def command sorted ("--" :: rest), if_true] at h
    exact .inl (flags_addOperands h ▸ hflag)
  | case3 sorted argument rest hdashes hoption ih =>
    simp only [sort.eq_def command sorted (argument :: rest), hdashes, hoption, if_true, if_false,
      bind_eq_ok_iff] at h
    obtain ⟨next, hnext, h⟩ := h
    rw [← flags_addOperands hnext]
    exact (ih _ h).imp_right (List.mem_cons_of_mem _)
  | case4 sorted argument rest hdashes hoption value htakes hsplit ih =>
    simp only [sort.eq_def command sorted (argument :: rest), hdashes, hoption, hsplit, htakes,
      if_false, Bool.false_eq_true, bind_eq_ok_iff] at h
    obtain ⟨next, hnext, h⟩ := h
    rw [← flags_setConfig hnext]
    exact (ih _ h).imp_right (List.mem_cons_of_mem _)
  | case5 sorted argument hdashes hoption htakes hsplit =>
    simp [sort.eq_def command sorted [argument], hdashes, hoption, hsplit, htakes] at h
  | case6 sorted argument hdashes hoption htakes hsplit value rest hvalue =>
    simp [sort.eq_def command sorted (argument :: value :: rest), hdashes, hoption, hsplit, htakes,
      hvalue] at h
  | case7 sorted argument hdashes hoption htakes hsplit value rest hvalue ih =>
    simp only [sort.eq_def command sorted (argument :: value :: rest), hdashes, hoption, hsplit,
      htakes, hvalue, if_false, Bool.false_eq_true, bind_eq_ok_iff] at h
    obtain ⟨next, hnext, h⟩ := h
    rw [← flags_setConfig hnext]
    exact (ih _ h).imp_right fun hmem => List.mem_cons_of_mem _ (List.mem_cons_of_mem _ hmem)
  | case8 sorted argument rest hdashes hoption name hsplit hconfig ih =>
    simp only [sort.eq_def command sorted (argument :: rest), hdashes, hoption, hsplit,
      if_false, Bool.false_eq_true, bind_eq_ok_iff] at h
    obtain ⟨next, hnext, h⟩ := h
    rcases ih _ h with hmem | hmem
    · rw [flags_addFlag hnext, List.mem_append, List.mem_singleton,
        eq_of_splitValue hsplit] at hmem
      rcases hmem with hmem | rfl
      · exact .inl hmem
      · exact .inr List.mem_cons_self
    · exact .inr (List.mem_cons_of_mem _ hmem)
  | case9 sorted argument rest hdashes hoption name value hsplit hhelp hconfig =>
    simp [sort.eq_def command sorted (argument :: rest), hdashes, hoption, hsplit, hhelp] at h
  | case10 sorted argument rest hdashes hoption name value hsplit hhelp hconfig =>
    simp [sort.eq_def command sorted (argument :: rest), hdashes, hoption, hsplit, hhelp] at h

theorem toCommand_init {path : Path} {force : Bool}
    (h : sorted.toCommand command = .ok (.init path force)) :
    force = sorted.flags.contains "--force" := by
  cases command with
  | lint =>
    simp only [toCommand] at h
    split at h <;> cases h
  | rules => cases h
  | init =>
    cases h
    rfl

end SortedArguments

namespace Command

theorem exists_sorted {arguments : List String} {command : Command}
    (h : ofArguments arguments = .ok command) : ∃ argument rest name sorted,
      arguments = argument :: rest ∧ CommandName.ofName? argument = some name ∧
        SortedArguments.sort name .empty rest = .ok sorted ∧
          sorted.toCommand name = .ok command := by
  unfold ofArguments at h
  split at h
  · cases h
  · cases h
  next argument rest _ =>
    split at h
    next name hname =>
      obtain ⟨sorted, hsorted, h⟩ := bind_eq_ok_iff.mp h
      exact ⟨argument, rest, name, sorted, rfl, hname, hsorted, h⟩
    next =>
      split at h
      · cases h
      · split at h
        · cases h
        · split at h <;> cases h

/-- Files are replaced only where the arguments say so. -/
theorem force_mem {arguments : List String} {path : Path}
    (h : ofArguments arguments = .ok (.init path true)) : "--force" ∈ arguments := by
  obtain ⟨argument, rest, name, sorted, rfl, -, hsorted, hcommand⟩ := exists_sorted h
  have hflag := SortedArguments.toCommand_init hcommand
  rcases SortedArguments.mem_of_mem_flags hsorted (List.contains_iff_mem.mp hflag.symm) with h | h
  · cases h
  · exact List.mem_cons_of_mem _ h

/-! ### Writing a configuration -/

variable {files : FileSystem} {path : Path} {force : Bool}

/-- Where a configuration is written: in the directory that a path leads to. There is a file there
only if it may be replaced. -/
structure Target (files : FileSystem) (path : Path) (force : Bool) (directory : Location) : Prop where
  resolve : files.resolve (absolutePath files path) = .ok directory
  writable : files.root.Writable directory ConfigFile.name
  isNew : force = false → files.root.at? (directory ++ [ConfigFile.name]) = none

/-- A configuration is written, or there is a failure and nothing is. -/
theorem writeConfig_cases (files : FileSystem) (path : Path) (force : Bool) :
    ((writeConfig files path force).code = 1 ∧ (writeConfig files path force).written = none) ∨
    ∃ directory, Target files path force directory ∧ (writeConfig files path force).code = 0 ∧
      (writeConfig files path force).written =
        some (directory ++ [ConfigFile.name], ConfigFile.template) := by
  unfold writeConfig
  simp only
  split
  next directory entries hresolve hnode =>
    obtain ⟨_, hdirectory, hentries⟩ := FileSystem.node_eq_ok_iff.mp hnode
    obtain rfl := Except.ok.inj (hresolve.symm.trans hdirectory)
    have hat : files.root.at? (directory ++ [ConfigFile.name]) =
        entries.lookup ConfigFile.name := by
      rw [Node.at?_append, hentries, Option.bind_some, Node.at?]
      cases entries.lookup ConfigFile.name <;> rfl
    split
    · exact .inl ⟨rfl, rfl⟩
    · have hdirectory : ∃ entries, files.root.at? directory = some (.directory entries) :=
        ⟨entries, hentries⟩
      cases hlookup : entries.lookup ConfigFile.name with
      | none =>
        rw [hlookup] at hat
        exact .inr ⟨directory, ⟨hresolve, ⟨hdirectory, by simp [hat]⟩, fun _ => hat⟩, rfl, rfl⟩
      | some node =>
        rw [hlookup] at hat
        cases force with
        | false => exact .inl ⟨rfl, rfl⟩
        | true =>
          cases node with
          | directory _ => exact .inl ⟨rfl, rfl⟩
          | file content =>
            exact .inr ⟨directory, ⟨hresolve, ⟨hdirectory, by simp [hat]⟩, by simp⟩, rfl, rfl⟩
  next => exact .inl ⟨rfl, rfl⟩
  next => exact .inl ⟨rfl, rfl⟩

theorem isAbsolute_absolutePath : (absolutePath files path).isAbsolute = true := by
  rw [absolutePath, Path.join]
  split
  next hslash => exact hslash
  next => split <;> simp [Path.isAbsolute, String.startsWith_string_iff, IgnoreLayer.absolute]

theorem inner_absolute {location : Location} (h : ∀ name ∈ location, IsName name) :
    (IgnoreLayer.absolute location).inner = location.map .name := by
  have hnone : Component.ofInner? "" = none := rfl
  have hempty : ("" : String).splitOn "/" = [""] := by simp [splitOn_slash]
  have hnames : location.filterMap Component.ofInner? = location.map .name := by
    induction location with
    | nil => rfl
    | cons name location ih =>
      obtain ⟨hname, hrest⟩ := List.forall_mem_cons.mp h
      rw [List.filterMap_cons, hname.ofInner?, ih hrest, List.map_cons]
  have hsplit := splitOn_slash_join "" ("/".intercalate location)
  rw [String.empty_append] at hsplit
  rw [Path.inner, IgnoreLayer.absolute, hsplit, hempty]
  cases location with
  | nil => simp [hempty, hnone]
  | cons name location =>
    rw [splitOn_slash_intercalate (fun name hname => (h name hname).noSlash) (by simp)]
    simpa [hnone] using hnames

theorem target_absolutePath (h : ∀ name ∈ files.workingDirectory, IsName name)
    (start : Location) :
    (absolutePath files path).target start = path.target files.workingDirectory := by
  rw [Path.target_eq, isAbsolute_absolutePath, if_pos rfl, Path.target_eq]
  cases hslash : path.spelling.startsWith "/" with
  | true =>
    rw [absolutePath, Path.join, hslash, if_pos rfl, Path.isAbsolute, hslash, if_pos rfl]
  | false =>
    rw [absolutePath, Path.inner_join hslash, inner_absolute h, List.foldl_append,
      Path.foldl_follow_name, List.nil_append, Path.isAbsolute, hslash, if_neg Bool.false_ne_true]

/-- Only `init` writes. -/
theorem run_written {arguments : List String}
    (h : ∀ path force, ofArguments arguments ≠ .ok (.init path force)) :
    (run files arguments).written = none := by
  rw [run]
  split
  next a _ =>
    unfold runLint
    split
    · rfl
    · simp only
      split
      · rfl
      · split
        · rfl
        · split
          · rfl
          · split <;> rfl
  next config json _ =>
    unfold showRules
    split
    · rfl
    · split <;> rfl
  next path force hinit => exact absurd hinit (h path force)
  all_goals rfl

theorem treeAfter_of_written {outcome : Outcome} (h : outcome.written = none) (root : Node) :
    outcome.treeAfter root = root := by
  rw [Outcome.treeAfter, h]

/-- The tree behind a run of `init` that succeeds: the file is there, and nothing else has changed. -/
theorem Target.written {directory : Location} (h : Target files path force directory)
    {outcome : Outcome}
    (hwritten : outcome.written = some (directory ++ [ConfigFile.name], ConfigFile.template)) :
    (outcome.treeAfter files.root).at? (directory ++ [ConfigFile.name]) =
      some (.file (.text ConfigFile.template)) ∧
    ∀ location ≠ directory ++ [ConfigFile.name],
      (outcome.treeAfter files.root).kindAt? location = files.root.kindAt? location := by
  rw [Outcome.treeAfter, hwritten]
  exact ⟨Node.at?_write _ _ _, fun location hlocation => h.writable.kindAt?_eq hlocation⟩

theorem Target.at?_eq {directory : Location} (h : Target files path false directory)
    {outcome : Outcome}
    (hwritten : outcome.written = some (directory ++ [ConfigFile.name], ConfigFile.template))
    {location : Location} {content : Content}
    (hfile : files.root.at? location = some (.file content)) :
    (outcome.treeAfter files.root).at? location = some (.file content) := by
  have hne : location ≠ directory ++ [ConfigFile.name] := by
    rintro rfl
    cases hfile.symm.trans (h.isNew rfl)
  have hkind := (h.written hwritten).2 location hne
  rw [Node.kindAt?, Node.kindAt?, hfile] at hkind
  cases hnode : (outcome.treeAfter files.root).at? location with
  | none => simp [hnode] at hkind
  | some node => cases node <;> simp_all [Node.kind]

/-- What a run changes in the tree. Without a command to write a configuration, and wherever the
exit code is not zero, the tree stays as it was. Unless the arguments say `--force`, every file
stays. A run that does write a configuration leaves the template under its name in the directory
that its path leads to, where there was such a file before only if it may be replaced, and changes
nothing else. -/
theorem run_effects (files : FileSystem) (arguments : List String) :
    ((∀ path force, ofArguments arguments ≠ .ok (.init path force)) →
      (run files arguments).treeAfter files.root = files.root) ∧
    ((run files arguments).code ≠ 0 → (run files arguments).treeAfter files.root = files.root) ∧
    ("--force" ∉ arguments → ∀ location content,
      files.root.at? location = some (.file content) →
        ((run files arguments).treeAfter files.root).at? location = some (.file content)) ∧
    ∀ path force, ofArguments arguments = .ok (.init path force) →
      (run files arguments).code = 0 → ∃ directory, Target files path force directory ∧
        ((run files arguments).treeAfter files.root).at? (directory ++ [ConfigFile.name]) =
          some (.file (.text ConfigFile.template)) ∧
        (∀ location ≠ directory ++ [ConfigFile.name],
          ((run files arguments).treeAfter files.root).kindAt? location =
            files.root.kindAt? location) ∧
        ((∀ name ∈ files.workingDirectory, IsName name) →
          directory = path.target files.workingDirectory) := by
  by_cases hinit : ∃ path force, ofArguments arguments = .ok (.init path force)
  · obtain ⟨path, force, hinit⟩ := hinit
    have hrun : run files arguments = writeConfig files path force := by rw [run, hinit]
    rw [hrun]
    refine ⟨fun h => absurd hinit (h path force), ?_, ?_, ?_⟩
    · intro hcode
      rcases writeConfig_cases files path force with ⟨-, hwritten⟩ | ⟨_, _, hzero, _⟩
      · exact treeAfter_of_written hwritten _
      · exact absurd hzero hcode
    · intro hforce location content hfile
      rcases writeConfig_cases files path force with
        ⟨-, hwritten⟩ | ⟨directory, htarget, -, hwritten⟩
      · rwa [treeAfter_of_written hwritten]
      · cases force with
        | true => exact absurd (force_mem hinit) hforce
        | false => exact htarget.at?_eq hwritten hfile
    · intro path' force' hinit' hcode
      obtain ⟨rfl, rfl⟩ : path = path' ∧ force = force' := by
        simpa using hinit.symm.trans hinit'
      rcases writeConfig_cases files path force with
        ⟨hone, -⟩ | ⟨directory, htarget, -, hwritten⟩
      · rw [hone] at hcode
        cases hcode
      · obtain ⟨hat, hkind⟩ := htarget.written hwritten
        refine ⟨directory, htarget, hat, hkind, fun hnames => ?_⟩
        rw [← target_absolutePath hnames files.workingDirectory]
        exact (FileSystem.target_of_resolve htarget.resolve).2.symm
  · have hnone : ∀ path force, ofArguments arguments ≠ .ok (.init path force) :=
      fun path force h => hinit ⟨path, force, h⟩
    have htree := treeAfter_of_written (@run_written files _ hnone) files.root
    rw [htree]
    exact ⟨fun _ => rfl, fun _ => rfl, fun _ _ _ h => h,
      fun path force h => absurd h (hnone path force)⟩

theorem ofArguments_init : ofArguments ["init"] = .ok (.init ⟨"."⟩ false) := by decide +kernel

theorem target_init {entries : List (String × Node)} (h : entries.lookup ConfigFile.name = none) :
    Target ⟨.directory entries, []⟩ ⟨"."⟩ false [] ∧
      (run ⟨.directory entries, []⟩ ["init"]).code = 0 := by
  have hfull : absolutePath ⟨.directory entries, []⟩ ⟨"."⟩ = ⟨"/."⟩ := by
    have hjoin : (IgnoreLayer.absolute []).join "." = ⟨"/."⟩ := by decide +kernel
    exact hjoin
  have hparts : ("/." : String).splitOn "/" = ["", "."] := by
    simp only [splitOn_slash]
    decide +kernel
  have hresolve : (FileSystem.mk (.directory entries) []).resolve ⟨"/."⟩ = .ok [] := by
    rw [FileSystem.resolve, if_neg (by decide +kernel), if_neg (by decide), if_neg (by decide),
      hparts]
    simp [FileSystem.step, Node.at?, bind, Except.bind, pure, Except.pure]
  have hnode : (FileSystem.mk (.directory entries) []).node ⟨"/."⟩ = .ok (.directory entries) :=
    FileSystem.node_eq_ok_iff.mpr ⟨[], hresolve, rfl⟩
  have hnew : (Node.directory entries).at? ([] ++ [ConfigFile.name]) = none := by
    simp [Node.at?, h]
  refine ⟨⟨hfull ▸ hresolve, ⟨⟨entries, rfl⟩, fun _ hat => ?_⟩, fun _ => hnew⟩, ?_⟩
  · cases hnew.symm.trans hat
  rw [run, ofArguments_init]
  simp only [writeConfig, hfull, hresolve, hnode, h]
  rw [if_neg (by decide +kernel)]

/-- In an empty directory the file is new. -/
theorem run_effects_empty :
    (run ⟨.directory [], []⟩ ["init"]).code = 0 ∧
    ((run ⟨.directory [], []⟩ ["init"]).treeAfter (.directory [])).at? [".brevity.toml"] =
      some (.file (.text ConfigFile.template)) := by
  obtain ⟨hempty, hcode⟩ := @target_init [] rfl
  obtain ⟨directory, htarget, hat, -⟩ := (run_effects _ _).2.2.2 _ _ ofArguments_init hcode
  obtain rfl := Except.ok.inj (htarget.resolve.symm.trans hempty.resolve)
  exact ⟨hcode, hat⟩

end Command

end ClosureLint
