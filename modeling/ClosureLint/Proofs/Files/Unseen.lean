import ClosureLint.Proofs.Files.Written

/-! A new file that is not seen. A path that does not come by the file leads to where it led before,
and so does one that ends in another name. A walk finds the same files as before, if the name of the
new one has none of the extensions. -/

namespace ClosureLint

/-- There is a directory, and nothing under a name in it. -/
structure Node.Room (root : Node) (directory : Location) (name : String) : Prop where
  isDirectory : ∃ entries, root.at? directory = some (.directory entries)
  isNew : root.at? (directory ++ [name]) = none

theorem Node.Room.writable {root : Node} {directory : Location} {name : String}
    (h : root.Room directory name) : root.Writable directory name where
  isDirectory := h.isDirectory
  noDirectory entries := by simp [h.isNew]

/-- The names in which the paths end that are looked up on account of ignore files. -/
def ignoreNames : List String := [".ignore", ".gitignore", ".git", ".jj", "commondir", "exclude"]

theorem getLast?_join_ne (hname : name ∉ ignoreNames) (path : Path) {child : String}
    (hchild : child ∈ [".ignore", ".gitignore", ".git", ".jj", "commondir", "info/exclude"]) :
    ((path.join child).spelling.splitOn "/").getLast? ≠ some name := by
  have hends : ∀ child ∈ [".ignore", ".gitignore", ".git", ".jj", "commondir", "info/exclude"],
      child.startsWith "/" = false ∧
        ∃ last ∈ ignoreNames, (child.splitOn "/").getLast? = some last := by
    simp only [splitOn_slash]
    decide +kernel
  obtain ⟨hslash, last, hlast, hsplit⟩ := hends child hchild
  rw [path.getLast?_splitOn_join hslash, hsplit, Ne, Option.some.injEq]
  rintro rfl
  exact hname hlast

namespace FileSystem

/-- Where the first stretch of a path leads on from. -/
def start (files : FileSystem) (path : Path) : Location :=
  if path.isAbsolute then [] else files.workingDirectory

/-- A path comes by a location: all its stretches lead there, or the first ones do. -/
def ComesBy (files : FileSystem) (path : Path) (location : Location) : Prop :=
  '\x00' ∉ path.spelling.toList ∧ path.spelling.utf8ByteSize < pathBound ∧
    ∃ front back, path.spelling.splitOn "/" = front ++ back ∧
      front.foldlM (step files.root) (files.start path) = .ok location

/-- What a path leads to, if it leads anywhere. -/
def kind? (files : FileSystem) (path : Path) : Option Kind :=
  (files.resolve path).toOption.bind files.root.kindAt?

theorem exists?_eq (files : FileSystem) (path : Path) :
    files.exists? path = (files.kind? path).isSome := by
  rw [exists?, node, kind?]
  cases files.resolve path with
  | error error => rfl
  | ok location =>
    simp only [bind, Except.bind, Except.toOption, Option.bind_some, Node.kindAt?]
    cases files.root.at? location <;> rfl

theorem node_eq_file_iff {files : FileSystem} {path : Path} {content : Content} :
    files.node path = .ok (.file content) ↔ files.kind? path = some (.file content) := by
  rw [node, kind?]
  cases files.resolve path with
  | error error => simp [bind, Except.bind, Except.toOption]
  | ok location =>
    simp only [bind, Except.bind, Except.toOption, Option.bind_some, Node.kindAt?]
    cases files.root.at? location with
    | none => simp
    | some node => cases node <;> simp [Node.kind]

theorem read_eq_ok_iff {files : FileSystem} {path : Path} {content : Content} :
    files.read path = .ok content ↔ files.kind? path = some (.file content) := by
  rw [← node_eq_file_iff, read, bind_eq_ok_iff]
  constructor
  · rintro ⟨node, hnode, hcontent⟩
    cases node with
    | file content' => rw [hnode, Except.ok.inj hcontent]
    | directory entries => cases hcontent
  · exact fun h => ⟨_, h, rfl⟩

theorem toOption_read_eq {files files' : FileSystem} {path : Path}
    (h : files'.kind? path = files.kind? path) :
    (files'.read path).toOption = (files.read path).toOption := by
  have hok : ∀ content, files'.read path = .ok content ↔ files.read path = .ok content := by
    simp [read_eq_ok_iff, h]
  cases hread : files.read path with
  | ok content => rw [(hok content).mpr hread]
  | error error =>
    cases hread' : files'.read path with
    | ok content => cases hread.symm.trans ((hok content).mp hread')
    | error error' => rfl

/-- A step out of a directory, which depends on whether there is an entry for it. -/
def leave (hasEntry : Bool) (location : Location) (part : String) : Except FileError Location :=
  if part = "" ∨ part = "." then .ok location
  else if part = ".." then .ok location.dropLast
  else if maxName < part.utf8ByteSize then .error .nameTooLong
  else if hasEntry then .ok (location ++ [part])
  else .error .missing

theorem step_eq_leave (root : Node) (location : Location) (part : String) :
    step root location part =
      match root.kindAt? location with
      | some .directory => leave (root.kindAt? (location ++ [part])).isSome location part
      | some (.file _) => .error .notDirectory
      | none => .error .missing := by
  rw [step, Node.kindAt?]
  cases hnode : root.at? location with
  | none => rfl
  | some node =>
    cases node with
    | file content => rfl
    | directory entries =>
      have hkind : (root.kindAt? (location ++ [part])).isSome = (entries.lookup part).isSome := by
        rw [Node.kindAt?, Node.at?_append, hnode, Option.bind_some, Node.at?]
        cases entries.lookup part <;> rfl
      simp only [Option.map_some, Node.kind, hkind, leave]

/-- A step to an entry fails without the entry, and no other step depends on it. -/
theorem leave_cases (location : Location) (part : String) :
    leave true location part = leave false location part ∨
      leave true location part = .ok (location ++ [part]) ∧
        leave false location part = .error .missing := by
  unfold leave
  split
  · exact .inl rfl
  · split
    · exact .inl rfl
    · split
      · exact .inl rfl
      · exact .inr ⟨rfl, rfl⟩

theorem leave_eq_ok {hasEntry : Bool} {location next : Location} {part : String}
    (h : leave hasEntry location part = .ok next) :
    next = location ∨ next = location.dropLast ∨ hasEntry = true ∧ next = location ++ [part] := by
  unfold leave at h
  split at h
  · exact .inl (Except.ok.inj h).symm
  · split at h
    · exact .inr (.inl (Except.ok.inj h).symm)
    · split at h
      · cases h
      · split at h
        next hentry => exact .inr (.inr ⟨hentry, (Except.ok.inj h).symm⟩)
        · cases h

/-- A file system and another one that has one more file. -/
structure Adds (files files' : FileSystem) (content : Content) (directory : Location)
    (name : String) : Prop where
  room : files.root.Room directory name
  root : files'.root = files.root.write content (directory ++ [name])
  workingDirectory : files'.workingDirectory = files.workingDirectory
  outside : files.workingDirectory ≠ directory ++ [name]

namespace Adds

variable {files files' : FileSystem} {content : Content} {directory location : Location}
  {name part : String} {parts : List String} {path : Path}

/-! ### Paths -/

theorem at?_file (h : Adds files files' content directory name) :
    files'.root.at? (directory ++ [name]) = some (.file content) := by
  rw [h.root, Node.at?_write]

theorem kindAt?_eq (h : Adds files files' content directory name)
    (hlocation : location ≠ directory ++ [name]) :
    files'.root.kindAt? location = files.root.kindAt? location := by
  rw [h.root, h.room.writable.kindAt?_eq hlocation]

theorem kindAt?_file (h : Adds files files' content directory name) :
    files'.root.kindAt? (directory ++ [name]) = some (.file content) ∧
      files.root.kindAt? (directory ++ [name]) = none := by
  rw [Node.kindAt?, Node.kindAt?, h.at?_file, h.room.isNew]
  exact ⟨rfl, rfl⟩

/-- A step is as before, or it leads to the new file and failed before. -/
theorem step_cases (h : Adds files files' content directory name)
    (hlocation : location ≠ directory ++ [name]) :
    (step files'.root location part = step files.root location part ∧
      step files.root location part ≠ .ok (directory ++ [name])) ∨
    location ++ [part] = directory ++ [name] ∧
      step files'.root location part = .ok (directory ++ [name]) ∧
        step files.root location part = .error .missing := by
  rw [step_eq_leave, step_eq_leave, h.kindAt?_eq hlocation]
  cases hkind : files.root.kindAt? location with
  | none => exact .inl ⟨rfl, by simp⟩
  | some kind =>
    cases kind with
    | file => exact .inl ⟨rfl, by simp⟩
    | directory =>
      -- Only the name of the file leads to it: it has nothing below it.
      have hparent : directory ++ [name] ≠ location.dropLast := by
        intro heq
        have hne : location ≠ [] := by rintro rfl; simp at heq
        rw [← List.dropLast_concat_getLast hne, ← heq, Node.kindAt?, Node.at?_append,
          h.room.isNew] at hkind
        cases hkind
      have hback : ∀ hasEntry, leave hasEntry location part = .ok (directory ++ [name]) →
          hasEntry = true ∧ directory ++ [name] = location ++ [part] := by
        intro hasEntry hleave
        rcases leave_eq_ok hleave with heq | heq | hentry
        · exact absurd heq.symm hlocation
        · exact absurd heq hparent
        · exact hentry
      by_cases hend : location ++ [part] = directory ++ [name]
      · simp only [hend, h.kindAt?_file]
        rcases leave_cases location part with hsame | ⟨htrue, hfalse⟩
        · exact .inl ⟨hsame, fun hfile => absurd (hback _ hfile).1 (by decide)⟩
        · exact .inr ⟨trivial, hend ▸ htrue, hfalse⟩
      · exact .inl ⟨by simp only [h.kindAt?_eq hend], fun hfile => hend (hback _ hfile).2.symm⟩

/-- The stretches of a path lead to where they led, or some of them lead to the new file; before,
they led nowhere then. -/
theorem foldlM_cases (h : Adds files files' content directory name)
    (hlocation : location ≠ directory ++ [name]) (parts : List String) :
    (parts.foldlM (step files'.root) location = parts.foldlM (step files.root) location ∧
      parts.foldlM (step files.root) location ≠ .ok (directory ++ [name])) ∨
    ∃ front part back, parts = front ++ part :: back ∧
      (front ++ [part]).foldlM (step files'.root) location = .ok (directory ++ [name]) ∧
        part = name ∧ parts.foldlM (step files.root) location = .error .missing := by
  induction parts generalizing location with
  | nil => exact .inl ⟨rfl, fun heq => hlocation (Except.ok.inj heq)⟩
  | cons part parts ih =>
    rcases h.step_cases hlocation with ⟨hsame, hnext⟩ | ⟨hend, hafter, hbefore⟩
    · rw [List.foldlM_cons, List.foldlM_cons, hsame]
      cases hstep : step files.root location part with
      | error error => exact .inl ⟨rfl, by rintro ⟨⟩⟩
      | ok next =>
        rw [hstep] at hnext
        rcases ih (fun heq => hnext (congrArg _ heq)) with
          hrest | ⟨front, last, back, rfl, hfile, hlast, hrest⟩
        · exact .inl hrest
        · refine .inr ⟨part :: front, last, back, rfl, ?_, hlast, hrest⟩
          rw [List.cons_append, List.foldlM_cons, hsame, hstep]
          exact hfile
    · refine .inr ⟨[], part, parts, rfl, ?_, ?_, ?_⟩
      · rw [List.nil_append, List.foldlM_cons, hafter]
        rfl
      · exact List.singleton_inj.mp (List.append_inj' hend rfl).2
      · rw [List.foldlM_cons, hbefore]
        rfl

theorem start_eq (h : Adds files files' content directory name) (path : Path) :
    files'.start path = files.start path ∧ files.start path ≠ directory ++ [name] := by
  rw [start, start, h.workingDirectory]
  refine ⟨rfl, ?_⟩
  split
  · simp
  · exact h.outside

/-- A path comes by the new file only if one of its stretches is the name of it. -/
theorem not_comesBy (h : Adds files files' content directory name)
    (hpath : name ∉ path.spelling.splitOn "/") :
    ¬ files'.ComesBy path (directory ++ [name]) := by
  rintro ⟨-, -, front, back, hparts, hfile⟩
  obtain ⟨hstart, hne⟩ := h.start_eq path
  rw [hstart] at hfile
  rcases h.foldlM_cases hne front with ⟨hsame, hbefore⟩ | ⟨_, _, _, rfl, -, rfl, -⟩
  · exact hbefore (hsame ▸ hfile)
  · exact hpath (by simp [hparts])

/-- A path leads to where it led, or it comes by the new file and led nowhere before. In that case
it leads nowhere again, unless it ends in the name of the file. -/
theorem resolve_cases (h : Adds files files' content directory name) (path : Path) :
    (files'.resolve path = files.resolve path ∧ files.resolve path ≠ .ok (directory ++ [name])) ∨
    files'.ComesBy path (directory ++ [name]) ∧ files.resolve path = .error .missing ∧
      ((path.spelling.splitOn "/").getLast? = some name ∨
        ∃ error, files'.resolve path = .error error) := by
  obtain ⟨hstart, houtside⟩ := h.start_eq path
  rw [resolve, resolve, ← start, ← start, hstart]
  split
  · exact .inl ⟨rfl, by simp⟩
  next hzero =>
    split
    · exact .inl ⟨rfl, by simp⟩
    · split
      · exact .inl ⟨rfl, by simp⟩
      next hlong =>
        refine (h.foldlM_cases houtside _).imp_right ?_
        rintro ⟨front, part, back, hparts, hfile, hpart, hbefore⟩
        refine ⟨⟨by simpa using hzero, by omega, front ++ [part], back, by simp [hparts],
          hstart ▸ hfile⟩, hbefore, ?_⟩
        cases back with
        | nil => exact .inl (by rw [hparts, List.getLast?_concat, hpart])
        | cons next back =>
          have hfront : front ++ part :: next :: back = (front ++ [part]) ++ next :: back := by simp
          have hstep : step files'.root (directory ++ [name]) next = .error .notDirectory := by
            rw [step, h.at?_file]
          refine .inr ⟨.notDirectory, ?_⟩
          rw [hparts, hfront, List.foldlM_append, hfile]
          simp only [bind, Except.bind, List.foldlM_cons, hstep]

theorem resolve_eq (h : Adds files files' content directory name)
    (hpath : ¬ files'.ComesBy path (directory ++ [name])) :
    files'.resolve path = files.resolve path ∧ files.resolve path ≠ .ok (directory ++ [name]) :=
  (h.resolve_cases path).resolve_right fun hby => hpath hby.1

theorem kind?_eq_of_resolve (h : Adds files files' content directory name)
    (hpath : files'.resolve path = files.resolve path ∧
      files.resolve path ≠ .ok (directory ++ [name])) :
    files'.kind? path = files.kind? path := by
  obtain ⟨hsame, hne⟩ := hpath
  rw [kind?, kind?, hsame]
  cases hresolve : files.resolve path with
  | error error => rfl
  | ok location => exact h.kindAt?_eq fun heq => hne (heq ▸ hresolve)

/-- A path that does not end in the name of the new file leads to what it led to. -/
theorem kind?_eq_of_getLast? (h : Adds files files' content directory name)
    (hlast : (path.spelling.splitOn "/").getLast? ≠ some name) :
    files'.kind? path = files.kind? path := by
  rcases h.resolve_cases path with hsame | ⟨-, hbefore, hafter⟩
  · exact h.kind?_eq_of_resolve hsame
  · obtain ⟨error, herror⟩ := hafter.resolve_left hlast
    rw [kind?, kind?, hbefore, herror]
    rfl

/-! ### Ignore files -/

theorem ignoreFile_eq (h : Adds files files' content directory name)
    (hlast : (path.spelling.splitOn "/").getLast? ≠ some name) :
    IgnoreFile.load files' path = IgnoreFile.load files path := by
  have hload : ∀ files : FileSystem, IgnoreFile.load files path =
      ((files.read path).toOption.map (IgnoreFile.ofContent path.spelling)).getD .empty := by
    intro files
    rw [IgnoreFile.load]
    cases files.read path <;> rfl
  rw [hload, hload, toOption_read_eq (h.kind?_eq_of_getLast? hlast)]

theorem commonDirectory?_eq (h : Adds files files' content directory name)
    (hname : name ∉ ignoreNames)
    (hlast : (path.spelling.splitOn "/").getLast? ≠ some name) :
    IgnoreLayer.commonDirectory? files' path = IgnoreLayer.commonDirectory? files path := by
  have hread : ∀ checkout : Path, (files'.read (checkout.join "commondir")).toOption =
      (files.read (checkout.join "commondir")).toOption := fun checkout =>
    toOption_read_eq (h.kind?_eq_of_getLast? (getLast?_join_ne hname checkout (by simp)))
  have hnode : ∀ content, files'.node path = .ok (.file content) ↔
      files.node path = .ok (.file content) := by
    simp [node_eq_file_iff, h.kind?_eq_of_getLast? hlast]
  unfold IgnoreLayer.commonDirectory?
  by_cases hfile : ∃ content, files.node path = .ok (.file content)
  · obtain ⟨content, hfile⟩ := hfile
    simp only [(hnode content).mpr hfile, hfile, hread]
  · split
    next content hcontent => exact absurd ⟨content, (hnode content).mp hcontent⟩ hfile
    next =>
      split
      next content hcontent => exact absurd ⟨content, hcontent⟩ hfile
      next => rfl

/-- What a directory says on ignored files does not depend on the new file. -/
theorem layer_eq (h : Adds files files' content directory name) (hname : name ∉ ignoreNames) :
    IgnoreLayer.load files' = IgnoreLayer.load files := by
  have hends := @getLast?_join_ne name hname
  have hfile : ∀ path : Path, ∀ child ∈ [".ignore", ".gitignore", "info/exclude"],
      IgnoreFile.load files' (path.join child) = IgnoreFile.load files (path.join child) :=
    fun path child hchild => h.ignoreFile_eq (hends path (by simp at hchild ⊢; tauto))
  have hexists : ∀ path : Path, ∀ child ∈ [".git", ".jj"],
      files'.exists? (path.join child) = files.exists? (path.join child) := by
    intro path child hchild
    rw [exists?_eq, exists?_eq,
      h.kind?_eq_of_getLast? (hends path (by simp at hchild ⊢; tauto))]
  funext location
  have hcommon := h.commonDirectory?_eq hname
    (hends (IgnoreLayer.absolute location) (show ".git" ∈ _ by simp))
  simp only [IgnoreLayer.load, hfile _ ".ignore" (by simp), hfile _ ".gitignore" (by simp),
    hfile _ "info/exclude" (by simp), hexists _ ".git" (by simp), hexists _ ".jj" (by simp),
    hcommon]

end Adds

end FileSystem

/-! ### Walks -/

section Walk

variable {files files' : FileSystem} {layers : List IgnoreLayer} {location : Location}

-- A walk looks at the file system only on account of ignore files.
mutual

theorem walkNode_congr (h : IgnoreLayer.load files' = IgnoreLayer.load files) :
    (node : Node) → (layers : List IgnoreLayer) → (location : Location) → (path : Path) →
      walkNode files' layers location path node = walkNode files layers location path node
  | .file _, _, _, _ => by rw [walkNode, walkNode]
  | .directory entries, _, _, _ => by rw [walkNode, walkNode, h, walkEntries_congr h entries]

theorem walkEntries_congr (h : IgnoreLayer.load files' = IgnoreLayer.load files) :
    (entries : List (String × Node)) → (layers : List IgnoreLayer) → (location : Location) →
      (path : Path) → walkEntries files' layers location path entries =
        walkEntries files layers location path entries
  | [], _, _, _ => by rw [walkEntries, walkEntries]
  | entry :: rest, _, _, _ => by
    rw [walkEntries, walkEntries, walkEntry_congr h entry, walkEntries_congr h rest]

theorem walkEntry_congr (h : IgnoreLayer.load files' = IgnoreLayer.load files) :
    (entry : String × Node) → (layers : List IgnoreLayer) → (location : Location) →
      (path : Path) → walkEntry files' layers location path entry =
        walkEntry files layers location path entry
  | (name, node), _, _, _ => by rw [walkEntry, walkEntry, walkNode_congr h node]

end

theorem walkEntries_append (path : Path) (entries entries' : List (String × Node)) :
    walkEntries files layers location path (entries ++ entries') =
      walkEntries files layers location path entries ++
        walkEntries files layers location path entries' := by
  induction entries with
  | nil => simp [walkEntries]
  | cons entry entries ih => rw [List.cons_append, walkEntries, walkEntries, ih, List.append_assoc]

theorem spelling_join_ne_of_ne {path : Path} (h : path.spelling ≠ "") (child : String) :
    (path.join child).spelling ≠ "" := by
  rw [Path.join]
  split
  next hslash =>
    rintro heq
    rw [show child = "" from heq] at hslash
    exact absurd hslash (by decide +kernel)
  next => split <;> simp [h]

/-- Whether a file with this name has one of the extensions. -/
def nameHasExtension (extensions : List String) (name : String) : Bool :=
  (Path.extensionOf? name).any fun extension => extensions.contains (asciiLower extension)

theorem hasExtension_join {path : Path} {name : String} (hname : IsName name)
    (hpath : path.spelling ≠ "") (extensions : List String) :
    hasExtension extensions (path.join name) = nameHasExtension extensions name := by
  rw [hasExtension, Path.extension?, Path.fileName?, Path.components_join hname hpath,
    List.getLast?_concat]
  rfl

theorem hasExtension_of_getLast? {path : Path} {name : String} (hname : IsName name)
    (hlast : (path.spelling.splitOn "/").getLast? = some name) (extensions : List String) :
    hasExtension extensions path = nameHasExtension extensions name := by
  have hinner : (Component.ofInner? name).toList = [.name name] := by rw [hname.ofInner?]; rfl
  obtain ⟨front, hfront⟩ := List.getLast?_eq_some_iff.mp hlast
  have hcomponents : ∃ others, path.components = others ++ [.name name] := by
    rw [Path.components_eq, hfront]
    by_cases hempty : front = []
    · refine ⟨[], ?_⟩
      simp [hempty, Path.ofStretches, Path.opening, hname.ne_empty, hname.ne_current, hinner]
    · exact ⟨_, by rw [Path.ofStretches_concat hempty, hinner]⟩
  obtain ⟨others, hcomponents⟩ := hcomponents
  rw [hasExtension, Path.extension?, Path.fileName?, hcomponents, List.getLast?_concat]
  rfl

theorem isDirectory_put (new node : Node) (name : String) (rest : Location) :
    (Node.put new (name :: rest) node).isDirectory = true := by
  rw [Node.put_cons]
  rfl

/-- The room for a file further down is in the next directory on the way. -/
theorem Node.Room.exists_below {node : Node} {name next : String} {front : Location}
    (h : node.Room (next :: front) name) : ∃ entries below, node = .directory entries ∧
      entries.lookup next = some below ∧ below.isDirectory = true ∧ below.Room front name := by
  obtain ⟨⟨found, hfound⟩, hnew⟩ := h
  cases node with
  | file content => cases hfound
  | directory entries =>
    rw [Node.at?] at hfound
    cases hlookup : entries.lookup next with
    | none => simp [hlookup] at hfound
    | some below =>
      rw [hlookup, Option.bind_some] at hfound
      rw [List.cons_append, Node.at?, hlookup, Option.bind_some] at hnew
      refine ⟨entries, below, rfl, hlookup, ?_, ⟨found, hfound⟩, hnew⟩
      cases below with
      | directory _ => rfl
      | file content => cases front <;> simp [Node.at?] at hfound

/-- A walk finds a new file only if it has one of the extensions. -/
theorem filter_walkNode_put {content : Content} {name : String} (hname : IsName name)
    {extensions : List String} (hextension : nameHasExtension extensions name = false)
    {front : Location} {node : Node} (hroom : node.Room front name) {path : Path}
    (hpath : path.spelling ≠ "")
    (layers : List IgnoreLayer) (location : Location) :
    (walkNode files layers location path
      (.put (.file content) (front ++ [name]) node)).filter (hasExtension extensions) =
        (walkNode files layers location path node).filter (hasExtension extensions) := by
  induction front generalizing node layers location path with
  | nil =>
    obtain ⟨⟨entries, hentries⟩, hnew⟩ := hroom
    obtain rfl : node = .directory entries := by simpa [Node.at?] using hentries
    have hlookup : entries.lookup name = none := by
      cases hlookup : entries.lookup name with
      | none => rfl
      | some node => simp [Node.at?, hlookup] at hnew
    rw [List.nil_append, Node.put_cons, Node.entries, Node.setEntry_of_lookup_none hlookup,
      walkNode, walkNode, walkEntries_append, List.filter_append, walkEntries, walkEntries,
      walkEntry]
    split
    next => simp
    next => simp [Node.put, walkNode, hasExtension_join hname hpath, hextension]
  | cons next front ih =>
    obtain ⟨entries, below, rfl, hlookup, hdirectory, hbelow⟩ := hroom.exists_below
    obtain ⟨before, behind, hsplit, hset⟩ := Node.setEntry_of_lookup_some hlookup
    have hput : (Node.put (.file content) (front ++ [name]) below).isDirectory = true := by
      cases front <;> exact isDirectory_put _ _ _ _
    rw [List.cons_append, Node.put_cons, Node.entries, hlookup, Option.getD_some, hset, hsplit,
      walkNode, walkNode, walkEntries_append, walkEntries_append, List.filter_append,
      List.filter_append, walkEntries, walkEntries, List.filter_append, List.filter_append,
      walkEntry, walkEntry, hput, hdirectory]
    split
    next => rfl
    next => rw [ih hbelow (spelling_join_ne_of_ne hpath next)]

end Walk

/-! ### Collected files -/

theorem mapM_congr {ε α β : Type} {f g : α → Except ε β} {l : List α}
    (h : ∀ a ∈ l, f a = g a) : l.mapM f = l.mapM g := by
  induction l with
  | nil => rfl
  | cons a l ih =>
    obtain ⟨ha, hl⟩ := List.forall_mem_cons.mp h
    rw [List.mapM_cons, List.mapM_cons, ha, ih hl]

namespace FileSystem.Adds

variable {files files' : FileSystem} {content : Content} {directory : Location} {name : String}
  {extensions : List String} {paths : List Path}

/-- Of the other nodes, only the directories around the new file are not as before. They have room
for it. -/
theorem at?_cases (h : Adds files files' content directory name) {location : Location}
    (hlocation : location ≠ directory ++ [name]) :
    files'.root.at? location = files.root.at? location ∨
      ∃ front entries, files.root.at? location = some (.directory entries) ∧
        files'.root.at? location =
          some (.put (.file content) (front ++ [name]) (.directory entries)) ∧
        (Node.directory entries).Room front name := by
  rw [h.root]
  refine (h.room.writable.at?_write hlocation).imp_right ?_
  rintro ⟨front, entries, rfl, hbefore, hafter⟩
  obtain ⟨⟨found, hfound⟩, hnew⟩ := h.room
  rw [List.append_assoc] at hnew
  rw [Node.at?_append, hbefore, Option.bind_some] at hfound hnew
  exact ⟨front, entries, hbefore, hafter, ⟨found, hfound⟩, hnew⟩

/-- A path argument that does not come by the new file stands for the files that it stood for. -/
theorem filesAt_eq (h : Adds files files' content directory name) (hname : IsName name)
    (hignore : name ∉ ignoreNames) (hextension : nameHasExtension extensions name = false)
    {path : Path} (hpath : ¬ files'.ComesBy path (directory ++ [name])) :
    filesAt files' extensions path = filesAt files extensions path := by
  obtain ⟨hsame, hne⟩ := h.resolve_eq hpath
  cases hresolve : files.resolve path with
  | error error => simp [filesAt, hsame, hresolve]
  | ok location =>
    have hlocation : location ≠ directory ++ [name] := fun heq => hne (heq ▸ hresolve)
    have hwalk := fun layers node => walkNode_congr (h.layer_eq hignore) node layers location path
    rw [hresolve] at hsame
    rw [filesAt, filesAt, node, node, hsame, hresolve, h.layer_eq hignore]
    simp only [bind, Except.bind]
    rcases h.at?_cases hlocation with hat | ⟨front, entries, hbefore, hafter, hroom⟩
    · rw [hat]
      cases files.root.at? location with
      | none => rfl
      | some node =>
        cases node with
        | file content => rfl
        | directory entries => simp only [hwalk]
    · have hput : ∃ entries', Node.put (.file content) (front ++ [name]) (.directory entries) =
          .directory entries' := by cases front <;> exact ⟨_, Node.put_cons⟩
      obtain ⟨entries', hput⟩ := hput
      have hfilter := fun layers => hput ▸ @filter_walkNode_put files content name hname
        extensions hextension front _ hroom path (target_of_resolve hresolve).1 layers location
      rw [hbefore, hafter, hput]
      simp only [hwalk, hfilter]

theorem collectFiles_eq (h : Adds files files' content directory name) (hname : IsName name)
    (hignore : name ∉ ignoreNames) (hextension : nameHasExtension extensions name = false)
    (hpaths : ∀ path ∈ paths, ¬ files'.ComesBy path (directory ++ [name])) :
    collectFiles files' extensions paths = collectFiles files extensions paths := by
  rw [collectFiles, collectFiles, mapM_congr fun path hpath =>
    h.filesAt_eq hname hignore hextension (hpaths path hpath)]

theorem read_eq_of_mem (h : Adds files files' content directory name) (hname : IsName name)
    (hextension : nameHasExtension extensions name = false)
    (hpaths : ∀ path ∈ paths, ¬ files'.ComesBy path (directory ++ [name])) {found : List Path}
    (hfound : collectFiles files extensions paths = .ok found) {path : Path} (hpath : path ∈ found) :
    (files'.read path).toOption = (files.read path).toOption := by
  obtain ⟨argument, hargument, listed, hlisted, hmem⟩ := exists_argument hfound hpath
  rcases filesAt_cases hlisted with ⟨content', -, rfl⟩ | ⟨location, entries, -, -, rfl⟩
  · obtain rfl := List.mem_singleton.mp hmem
    exact toOption_read_eq (h.kind?_eq_of_resolve (h.resolve_eq (hpaths path hargument)))
  · refine toOption_read_eq (h.kind?_eq_of_getLast? fun hlast => ?_)
    have hends := hasExtension_of_getLast? hname hlast extensions
    rw [(List.mem_filter.mp hmem).2, hextension] at hends
    cases hends

theorem ofPaths_eq (h : Adds files files' content directory name) (hname : IsName name)
    (hignore : name ∉ ignoreNames) {linter : Linter}
    (hextension : nameHasExtension linter.extensions name = false)
    (hpaths : ∀ path ∈ paths, ¬ files'.ComesBy path (directory ++ [name])) (highestOnly : Bool) :
    Report.ofPaths linter files' highestOnly paths =
      Report.ofPaths linter files highestOnly paths := by
  unfold Report.ofPaths
  rw [h.collectFiles_eq hname hignore hextension hpaths]
  cases hfound : collectFiles files linter.extensions paths with
  | error error => rfl
  | ok found =>
    refine congrArg (fun perFile : Except ReportError _ => perFile.bind fun perFile =>
      .ok (Report.ofFiles perFile)) (mapM_congr fun path hpath => ?_)
    have hread := h.read_eq_of_mem hname hextension hpaths hfound hpath
    cases hbefore : files.read path <;> cases hafter : files'.read path <;>
      simp_all [Except.toOption]

end FileSystem.Adds

end ClosureLint
