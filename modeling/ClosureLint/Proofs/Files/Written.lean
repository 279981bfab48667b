import ClosureLint.Proofs.Files.Target

/-! What a written file changes in a tree: what is at its own location, and the directories around
it, which are directories as before. -/

namespace ClosureLint

/-- What is at a location, without a look into directories. -/
inductive Kind where
  | file (content : Content)
  | directory
  deriving DecidableEq, Repr

namespace Node

def kind : Node → Kind
  | .file content => .file content
  | .directory _ => .directory

/-- What is at a location, if there is anything. -/
def kindAt? (root : Node) (location : Location) : Option Kind := (root.at? location).map kind

def entries : Node → List (String × Node)
  | .file _ => []
  | .directory entries => entries

variable {root new : Node} {name other : String} {location rest : Location}

theorem at?_cons : root.at? (name :: rest) = (root.entries.lookup name).bind (·.at? rest) := by
  cases root <;> rfl

theorem put_cons : put new (name :: rest) root = .directory
    (setEntry name (put new rest ((root.entries.lookup name).getD (.directory []))) root.entries) := by
  cases root <;> rfl

theorem lookup_cons (key : String) (node : Node) (entries : List (String × Node)) :
    ((key, node) :: entries).lookup other =
      if other = key then some node else entries.lookup other := by
  rw [List.lookup_cons]
  by_cases h : other = key
  · simp [h]
  · rw [beq_false_of_ne h, if_neg h]

theorem lookup_setEntry (node : Node) (entries : List (String × Node)) :
    (setEntry name node entries).lookup other =
      if other = name then some node else entries.lookup other := by
  induction entries with
  | nil => exact lookup_cons name node []
  | cons entry entries ih =>
    obtain ⟨key, value⟩ := entry
    rw [setEntry, lookup_cons]
    by_cases hkey : key = name
    · rw [if_pos hkey, lookup_cons, hkey]
      by_cases h : other = name <;> simp [h]
    · rw [if_neg hkey, lookup_cons, ih]
      by_cases h : other = key
      · simp [h, hkey]
      · simp [h]

theorem setEntry_of_lookup_none {entries : List (String × Node)} (h : entries.lookup name = none)
    (node : Node) : setEntry name node entries = entries ++ [(name, node)] := by
  induction entries with
  | nil => rfl
  | cons entry entries ih =>
    obtain ⟨key, value⟩ := entry
    rw [lookup_cons] at h
    split at h
    next => cases h
    next hkey => rw [setEntry, if_neg (Ne.symm hkey), ih h, List.cons_append]

theorem setEntry_of_lookup_some {entries : List (String × Node)} {old : Node}
    (h : entries.lookup name = some old) : ∃ before behind,
      entries = before ++ (name, old) :: behind ∧
        ∀ node, setEntry name node entries = before ++ (name, node) :: behind := by
  induction entries with
  | nil => cases h
  | cons entry entries ih =>
    obtain ⟨key, value⟩ := entry
    rw [lookup_cons] at h
    split at h
    next hkey =>
      obtain rfl := Option.some.inj h
      exact ⟨[], entries, by rw [hkey]; rfl, fun node => by rw [setEntry, if_pos hkey.symm]; rfl⟩
    next hkey =>
      obtain ⟨before, behind, rfl, hset⟩ := ih h
      refine ⟨(key, value) :: before, behind, rfl, fun node => ?_⟩
      rw [setEntry, if_neg (Ne.symm hkey), hset, List.cons_append]

/-- On the way to the new node there are directories, which the node is put into. -/
theorem at?_put_append (front : Location) : (put new (front ++ rest) root).at? front =
    some (put new rest ((root.at? front).getD (.directory []))) := by
  induction front generalizing root with
  | nil => simp [at?]
  | cons name front ih =>
    rw [List.cons_append, put_cons, at?_cons, entries, lookup_setEntry, if_pos rfl, Option.bind_some,
      ih, at?_cons]
    cases root.entries.lookup name with
    | some node => rfl
    | none => cases front <;> simp [at?]

theorem at?_put_apart {other : Location} (h : ¬ other <+: location) (h' : ¬ location <+: other) :
    (put new location root).at? other = root.at? other := by
  induction location generalizing root other with
  | nil => exact absurd List.nil_prefix h'
  | cons name location ih =>
    cases other with
    | nil => exact absurd List.nil_prefix h
    | cons name' other =>
      rw [put_cons, at?_cons, entries, lookup_setEntry, at?_cons]
      split
      next hname =>
        subst hname
        rw [List.cons_prefix_cons, eq_self, true_and] at h h'
        rw [Option.bind_some, ih h h']
        cases root.entries.lookup name' with
        | some node => rfl
        | none =>
          cases other with
          | nil => exact absurd List.nil_prefix h
          | cons => rfl
      next => rfl

/-- A file may be written where there is a file or nothing, in a directory. -/
structure Writable (root : Node) (directory : Location) (name : String) : Prop where
  isDirectory : ∃ entries, root.at? directory = some (.directory entries)
  noDirectory : ∀ entries, root.at? (directory ++ [name]) ≠ some (.directory entries)

variable {directory : Location} {content : Content}

theorem at?_write (root : Node) (location : Location) (content : Content) :
    (root.write content location).at? location = some (.file content) := by
  have h := @at?_put_append root (.file content) [] location
  rwa [List.append_nil] at h

theorem exists_directory_of_at? {node : Node} (hrest : rest ≠ [])
    (h : root.at? (location ++ rest) = some node) :
    ∃ entries, root.at? location = some (.directory entries) := by
  rw [at?_append] at h
  obtain ⟨name, rest, rfl⟩ := List.exists_cons_of_ne_nil hrest
  cases hlocation : root.at? location with
  | none => simp [hlocation] at h
  | some node =>
    cases node with
    | file content => simp [hlocation, at?] at h
    | directory entries => exact ⟨entries, rfl⟩

/-- Of the nodes that are not at its location, a written file changes the directories around it. -/
theorem Writable.at?_write (h : root.Writable directory name) {location : Location}
    (hlocation : location ≠ directory ++ [name]) :
    (root.write content (directory ++ [name])).at? location = root.at? location ∨
      ∃ front entries, directory = location ++ front ∧
        root.at? location = some (.directory entries) ∧
          (root.write content (directory ++ [name])).at? location =
            some (put (.file content) (front ++ [name]) (.directory entries)) := by
  by_cases hbefore : location <+: directory ++ [name]
  · obtain ⟨rest, hrest⟩ := hbefore
    have hne : rest ≠ [] := by
      rintro rfl
      exact hlocation (by simpa using hrest)
    obtain ⟨front, last, rfl⟩ := (List.eq_nil_or_concat' rest).resolve_left hne
    rw [← List.append_assoc] at hrest
    obtain ⟨rfl, hlast⟩ := List.append_inj' hrest rfl
    obtain rfl := (List.cons.inj hlast).1
    obtain ⟨entries, hentries⟩ : ∃ entries, root.at? location = some (.directory entries) := by
      obtain ⟨entries, hdirectory⟩ := h.isDirectory
      by_cases hempty : front = []
      · exact ⟨entries, by simpa [hempty] using hdirectory⟩
      · exact exists_directory_of_at? hempty hdirectory
    refine .inr ⟨front, entries, rfl, hentries, ?_⟩
    rw [write, List.append_assoc, at?_put_append, hentries, Option.getD_some]
  · by_cases hbehind : directory ++ [name] <+: location
    · obtain ⟨rest, rfl⟩ := hbehind
      obtain ⟨next, rest, rfl⟩ := List.exists_cons_of_ne_nil
        (show rest ≠ [] by rintro rfl; exact hlocation (List.append_nil _))
      have hnothing : root.at? (directory ++ [name] ++ next :: rest) = none := by
        refine Option.eq_none_iff_forall_ne_some.mpr fun node hnode => ?_
        obtain ⟨entries, hentries⟩ := exists_directory_of_at? (List.cons_ne_nil _ _) hnode
        exact h.noDirectory entries hentries
      rw [hnothing, at?_append, Node.at?_write]
      exact .inl rfl
    · exact .inl (at?_put_apart hbefore hbehind)

/-- A file that is written changes nothing but what is at its own location. -/
theorem Writable.kindAt?_eq (h : root.Writable directory name) {location : Location}
    (hlocation : location ≠ directory ++ [name]) :
    (root.write content (directory ++ [name])).kindAt? location = root.kindAt? location := by
  rw [kindAt?, kindAt?]
  rcases h.at?_write hlocation with hsame | ⟨front, entries, -, hbefore, hafter⟩
  · rw [hsame]
  · rw [hbefore, hafter]
    cases front <;> rfl

end Node

end ClosureLint
