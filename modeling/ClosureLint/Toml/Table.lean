import ClosureLint.Toml.Value

/-! How the lines of a TOML document build its tables. Each table remembers how it came about,
since that decides what may still be added to it: a header may open a table only once, keys with
points extend only tables that such keys or longer headers have made, and a table in braces is
closed for good. -/

namespace ClosureLint.Toml

inductive Origin where
  /-- On the way to a longer header. -/
  | implied
  /-- By a header of its own, or as the document itself. -/
  | opened
  /-- On the way to the last part of a key. -/
  | pointed
  /-- In braces. -/
  | braced
  deriving DecidableEq, Repr

/-- A value under construction. -/
inductive Node where
  | scalar (value : Value)
  | list (items : List Node)
  /-- The elements of an array of tables, latest first. -/
  | tables (elements : List (List (String × Node)))
  | table (origin : Origin) (entries : List (String × Node))

/-- The entries of a table under construction, in the order of their lines. -/
abbrev Draft := List (String × Node)

namespace Draft

/-- The draft with the node of a key changed, or entered at the end if the key is new. -/
def alter (f : Option Node → Option Node) (key : String) : Draft → Option Draft
  | [] => (f none).map fun node => [(key, node)]
  | (k, node) :: rest =>
    if k = key then (f (some node)).map fun node => (k, node) :: rest
    else (alter f key rest).map ((k, node) :: ·)

def enter (key : String) (node : Node) (draft : Draft) : Option Draft :=
  draft.alter (fun | none => some node | some _ => none) key

/-- Enters a value under a key with points. The tables on the way come into being, or are ones
that such keys or longer headers have made; the table that takes the value in the end is the
first one, or one that keys with points have made. -/
def define (node : Node) : (path : List String) → (takes : Bool) → Draft → Option Draft
  | [], _, _ => none
  | [key], takes, draft => if takes then draft.enter key node else none
  | key :: path, _, draft =>
    draft.alter (fun
      | none => (define node path true []).map (.table .pointed)
      | some (.table .pointed entries) =>
        (define node path true entries).map (.table .pointed)
      | some (.table .implied entries) =>
        (define node path false entries).map (.table .implied)
      | some (.tables (last :: earlier)) =>
        (define node path false last).map fun entries => .tables (entries :: earlier)
      | some _ => none) key

/-- Changes the table that a header's path leads to; tables that the path misses come into being
on the way. The path may pass through any table but one in braces, and through the latest
element of an array of tables. -/
def descend (f : Draft → Option Draft) : (path : List String) → Draft → Option Draft
  | [], draft => f draft
  | key :: path, draft =>
    draft.alter (fun
      | none => (descend f path []).map (.table .implied)
      | some (.table .braced _) => none
      | some (.table origin entries) => (descend f path entries).map (.table origin)
      | some (.tables (last :: earlier)) =>
        (descend f path last).map fun entries => .tables (entries :: earlier)
      | some _ => none) key

/-- Opens the table of a header; a longer header may have made it before. -/
def openTable (key : String) (draft : Draft) : Option Draft :=
  draft.alter (fun
    | none => some (.table .opened [])
    | some (.table .implied entries) => some (.table .opened entries)
    | some _ => none) key

/-- Opens the next element of an array of tables. -/
def openElement (key : String) (draft : Draft) : Option Draft :=
  draft.alter (fun
    | none => some (.tables [[]])
    | some (.tables elements) => some (.tables ([] :: elements))
    | some _ => none) key

end Draft

/-! ### The finished tree -/

mutual

def Node.value : Node → Value
  | .scalar value => value
  | .list items => .array (Node.values items)
  | .tables elements => .array (Node.tableValues elements)
  | .table _ entries => .table (Node.entryValues entries)

def Node.values : List Node → List Value
  | [] => []
  | node :: rest => node.value :: Node.values rest

/-- The values of the elements of an array of tables, whose latest element stands first. -/
def Node.tableValues : List (List (String × Node)) → List Value
  | [] => []
  | entries :: earlier => Node.tableValues earlier ++ [.table (Node.entryValues entries)]

def Node.entryValues : List (String × Node) → List (String × Value)
  | [] => []
  | (key, node) :: rest => (key, node.value) :: Node.entryValues rest

end

end ClosureLint.Toml
