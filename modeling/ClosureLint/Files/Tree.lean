import ClosureLint.Files.Path
import ClosureLint.Text

/-! A tree of files and directories, and where paths lead in it. There are no links, so every file
has one location: the names of the directories on the way from the root to it, and its own. -/

namespace ClosureLint

inductive Content where
  | text (t : Text)
  /-- Bytes that are not the UTF-8 form of a text. -/
  | binary (bytes : List UInt8)
  deriving DecidableEq, Repr

namespace Content

def ofBytes (bytes : ByteArray) : Content :=
  match String.fromUTF8? bytes with
  | some s => .text s.toList
  | none => .binary bytes.toList

def text? : Content → Option Text
  | .text t => some t
  | .binary _ => none

end Content

/-- A file or a directory. The names in a directory are distinct. -/
inductive Node where
  | file (content : Content)
  | directory (entries : List (String × Node))

/-- The names from the root to a file or a directory. -/
abbrev Location := List String

inductive FileError where
  | missing
  | notDirectory
  | isDirectory
  | nameTooLong
  /-- The path holds the character with code zero. -/
  | invalidName
  /-- The file is to be read as text and is none. -/
  | notText
  deriving DecidableEq, Repr

def FileError.message : FileError → String
  | .missing => "No such file or directory (os error 2)"
  | .notDirectory => "Not a directory (os error 20)"
  | .isDirectory => "Is a directory (os error 21)"
  | .nameTooLong => "File name too long (os error 36)"
  | .invalidName => "file name contained an unexpected NUL byte"
  | .notText => "stream did not contain valid UTF-8"

namespace Node

def isDirectory : Node → Bool
  | .directory _ => true
  | .file _ => false

def at? : Node → Location → Option Node
  | node, [] => some node
  | .file _, _ :: _ => none
  | .directory entries, name :: rest => (entries.lookup name).bind fun node => node.at? rest

/-- Entries with the node under a name replaced, or added at the end. -/
def setEntry (name : String) (node : Node) : List (String × Node) → List (String × Node)
  | [] => [(name, node)]
  | entry :: rest =>
    if entry.1 = name then (name, node) :: rest else entry :: setEntry name node rest

/-- The tree with a node put at a location, in the place of any other. Directories on the way are
made where they are missing. -/
def put (new : Node) : Location → Node → Node
  | [], _ => new
  | name :: rest, .directory entries =>
    let below := (entries.lookup name).getD (.directory [])
    .directory (setEntry name (put new rest below) entries)
  | name :: rest, .file _ => .directory [(name, put new rest (.directory []))]

def write (content : Content) (location : Location) (root : Node) : Node :=
  put (.file content) location root

/-- The tree with a directory made at a location, unless there is something already. -/
def makeDirectory : Location → Node → Node
  | [], node => node
  | name :: rest, .directory entries =>
    .directory (setEntry name (makeDirectory rest ((entries.lookup name).getD (.directory [])))
      entries)
  | _ :: _, .file content => .file content

end Node

/-- A tree and the directory in it that relative paths begin at. -/
structure FileSystem where
  root : Node
  workingDirectory : Location

namespace FileSystem

def maxName : Nat := 255

/-- One more than the most bytes that a path may have. -/
def pathBound : Nat := 4096

/-- Where one part of a path leads from a location. Only a directory can be left by a further part,
also by an empty one. -/
def step (root : Node) (location : Location) (part : String) : Except FileError Location :=
  match root.at? location with
  | some (.directory entries) =>
    if part = "" ∨ part = "." then .ok location
    else if part = ".." then .ok location.dropLast
    else if maxName < part.utf8ByteSize then .error .nameTooLong
    else if (entries.lookup part).isSome then .ok (location ++ [part])
    else .error .missing
  | some (.file _) => .error .notDirectory
  | none => .error .missing

def resolve (files : FileSystem) (path : Path) : Except FileError Location :=
  if path.spelling.toList.contains '\x00' then .error .invalidName
  else if path.spelling = "" then .error .missing
  else if pathBound ≤ path.spelling.utf8ByteSize then .error .nameTooLong
  else
    let start := if path.isAbsolute then [] else files.workingDirectory
    (path.spelling.splitOn "/").foldlM (step files.root) start

def node (files : FileSystem) (path : Path) : Except FileError Node := do
  match files.root.at? (← files.resolve path) with
  | some node => .ok node
  | none => .error .missing

def exists? (files : FileSystem) (path : Path) : Bool := (files.node path).isOk

def read (files : FileSystem) (path : Path) : Except FileError Content := do
  match ← files.node path with
  | .file content => .ok content
  | .directory _ => .error .isDirectory

def readText (files : FileSystem) (path : Path) : Except FileError Text := do
  match ← files.read path with
  | .text t => .ok t
  | .binary _ => .error .notText

end FileSystem

end ClosureLint
