/-! File paths with `/` between their parts. Paths are kept as they are spelled; two spellings
name the same way through the tree when their components agree. -/

namespace ClosureLint

/-- Lower case for the letters `A` to `Z`, and no change to other characters. -/
def asciiLower (s : String) : String := s.map Char.toLower

structure Path where
  spelling : String
  deriving DecidableEq, Repr

inductive Component where
  /-- The slash that an absolute path begins with. -/
  | root
  /-- A `.` that a relative path begins with; elsewhere it is no component. -/
  | current
  | parent
  | name (s : String)
  deriving DecidableEq, Repr

namespace Component

def rank : Component → Nat
  | .root => 0
  | .current => 1
  | .parent => 2
  | .name _ => 3

/-- Components by kind, and names among each other by their characters. -/
def compare (a b : Component) : Ordering :=
  match a, b with
  | .name s, .name t => Ord.compare s t
  | a, b => Ord.compare a.rank b.rank

/-- The components of one stretch of a path between slashes, other than its first stretch. -/
def ofInner? (part : String) : Option Component :=
  if part = "" ∨ part = "." then none
  else if part = ".." then some .parent
  else some (.name part)

end Component

namespace Path

/-- The components of a path. Doubled and closing slashes and inner `.` leave no trace. -/
def components (path : Path) : List Component :=
  match path.spelling.splitOn "/" with
  | [] => []
  | first :: rest =>
    let inner := rest.filterMap Component.ofInner?
    if first = "" then
      if rest.isEmpty then [] else .root :: inner
    else if first = "." then .current :: inner
    else (Component.ofInner? first).toList ++ inner

def isAbsolute (path : Path) : Bool := path.spelling.startsWith "/"

/-- Orders lists of components, the shorter one first where one continues the other. -/
def compareComponents : List Component → List Component → Ordering
  | [], [] => .eq
  | [], _ :: _ => .lt
  | _ :: _, [] => .gt
  | a :: as, b :: bs => (a.compare b).then (compareComponents as bs)

def compare (a b : Path) : Ordering := compareComponents a.components b.components

/-- The path that `child` names from within `path`. -/
def join (path : Path) (child : String) : Path :=
  if child.startsWith "/" then ⟨child⟩
  else if path.spelling = "" || path.spelling.endsWith "/" then ⟨path.spelling ++ child⟩
  else ⟨path.spelling ++ "/" ++ child⟩

def fileName? (path : Path) : Option String :=
  match path.components.getLast? with
  | some (.name s) => some s
  | _ => none

/-- What follows the last point of a file's name, if something precedes that point. -/
def extensionOf? (fileName : String) : Option String :=
  match (fileName.toList.reverse.span (· ≠ '.')) with
  | (_, []) => none
  | (_, [_]) => none
  | (tail, _) => some (String.ofList tail.reverse)

def extension? (path : Path) : Option String := path.fileName?.bind extensionOf?

end Path

end ClosureLint
