import ClosureLint.Toml.Scalar
import ClosureLint.Toml.Table

/-! TOML documents: values, key lines and headers, and the value tree of a whole document. A
document that breaks a rule of the format anywhere has no tree. -/

namespace ClosureLint.Toml

/-- How deep brackets and braces may nest. -/
def nestingLimit : Nat := 80

mutual

/-- A value; `depth` counts the brackets around it, and `fuel` bounds the characters read. -/
def node : (fuel : Nat) → (depth : Nat) → Reader Node
  | 0, _, _ => none
  | fuel + 1, depth, t =>
    match t with
    | '"' :: _ => (string t).map fun (s, rest) => (.scalar (.text s), rest)
    | '\'' :: _ => (string t).map fun (s, rest) => (.scalar (.text s), rest)
    | '[' :: rest =>
      if depth < nestingLimit then items fuel (depth + 1) [] rest else none
    | '\x7b' :: rest =>
      if depth < nestingLimit then members fuel (depth + 1) [] rest else none
    | _ => (scalar t).map fun (v, rest) => (.scalar v, rest)

/-- The rest of an array; `done` holds the items before, latest first. -/
def items : (fuel : Nat) → (depth : Nat) → (done : List Node) → Reader Node
  | 0, _, _, _ => none
  | fuel + 1, depth, done, t =>
    match skipLines t with
    | ']' :: rest => some (.list done.reverse, rest)
    | t => do
      let (item, rest) ← node fuel depth t
      match skipLines rest with
      | ',' :: more => items fuel depth (item :: done) more
      | ']' :: more => some (.list (item :: done).reverse, more)
      | _ => none

/-- The rest of a table in braces, which holds the entries of `draft` so far. -/
def members : (fuel : Nat) → (depth : Nat) → (draft : Draft) → Reader Node
  | 0, _, _, _ => none
  | fuel + 1, depth, draft, t =>
    match skipLines t with
    | '\x7d' :: rest => some (.table .braced draft, rest)
    | t => do
      let (path, rest) ← key t
      let rest ← expectChar '=' rest
      let (value, rest) ← node fuel depth (skipBlanks rest)
      let draft ← draft.define value path true
      match skipLines rest with
      | ',' :: more => members fuel depth draft more
      | '\x7d' :: more => some (.table .braced draft, more)
      | _ => none

end

/-- A line with a key and its value, up to the end of the value. -/
def keyValue : Reader (List String × Node) := fun t => do
  let (path, rest) ← key t
  let rest ← expectChar '=' rest
  let (value, rest) ← node (rest.length + 1) 0 (skipBlanks rest)
  some ((path, value), rest)

/-- A document as far as it has been read: its draft, and the table that key lines now extend. -/
structure Progress where
  draft : Draft
  current : List String

namespace Progress

/-- A header: all but the last part of its path lead to where `create` makes the table. -/
def header (create : String → Draft → Option Draft) (path : List String) (p : Progress) :
    Option Progress := do
  let last ← path.getLast?
  let draft ← p.draft.descend (create last) path.dropLast
  some ⟨draft, path⟩

def assign (path : List String) (value : Node) (p : Progress) : Option Progress := do
  let draft ← p.draft.descend (fun table => table.define value path true) p.current
  some { p with draft := draft }

/-- One line, other than a blank one: what it does, and the text behind it. -/
def line (p : Progress) : Reader Progress
  | '[' :: '[' :: rest => do
    let (path, rest) ← key rest
    let rest ← expectChar ']' rest
    let rest ← expectChar ']' rest
    some (← p.header Draft.openElement path, rest)
  | '[' :: rest => do
    let (path, rest) ← key rest
    let rest ← expectChar ']' rest
    some (← p.header Draft.openTable path, rest)
  | t => do
    let ((path, value), rest) ← keyValue t
    some (← p.assign path value, rest)

/-- All the lines of a text; `fuel` bounds their number. -/
def lines : (fuel : Nat) → Progress → Text → Option Progress
  | 0, _, _ => none
  | fuel + 1, p, t =>
    match skipBlanks (skipLines t) with
    | [] => some p
    | t => do
      let (p, rest) ← p.line t
      lines fuel p (← endLine? rest)

end Progress

/-- The text without a byte order mark at its front. -/
def dropMark : Text → Text
  | '\ufeff' :: rest => rest
  | t => t

/-- The value tree of a document, if the document is well formed. -/
def parse? (t : Text) : Option Entries := do
  let t := dropMark t
  let p ← Progress.lines (t.length + 1) ⟨[], []⟩ t
  some (Node.entryValues p.draft)

end ClosureLint.Toml
