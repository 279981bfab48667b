import ClosureLint.Files.Ignore

/-! The files that path arguments stand for: a file stands for itself, whatever its name, and a
directory for the files in it that have one of the given extensions and are not left out. -/

namespace ClosureLint

inductive CollectError where
  /-- A path leads nowhere. -/
  | system (error : FileError)
  /-- Ignore files above a directory cannot be read in full. -/
  | ignoreFiles (faults : List String)
  deriving DecidableEq, Repr

def CollectError.message : CollectError → String
  | .system error => error.message
  | .ignoreFiles faults => "\n".intercalate faults

mutual

/-- The files below a node that a walk comes to. `layers` are the directories above it and `path`
is how the walk spells the way to it. -/
def walkNode (files : FileSystem) (layers : List IgnoreLayer) (location : Location) (path : Path) :
    Node → List Path
  | .file _ => [path]
  | .directory entries =>
    walkEntries files (IgnoreLayer.load files location :: layers) location path entries

def walkEntries (files : FileSystem) (layers : List IgnoreLayer) (location : Location)
    (path : Path) : List (String × Node) → List Path
  | [] => []
  | entry :: rest =>
    walkEntry files layers location path entry ++ walkEntries files layers location path rest

def walkEntry (files : FileSystem) (layers : List IgnoreLayer) (location : Location)
    (path : Path) : String × Node → List Path
  | (name, node) =>
    if IgnoreLayer.leavesOut layers (location ++ [name]) node.isDirectory then []
    else walkNode files layers (location ++ [name]) (path.join name) node

end

/-- The proper prefixes of a location, the shortest first: the directories around it. -/
def enclosing (location : Location) : List Location :=
  (List.range location.length).map location.take

/-- Whether a path has one of the extensions, which are in lower case. -/
def hasExtension (extensions : List String) (path : Path) : Bool :=
  path.extension?.any fun extension => extensions.contains (asciiLower extension)

def filesAt (files : FileSystem) (extensions : List String) (path : Path) :
    Except CollectError (List Path) :=
  match files.resolve path, files.node path with
  | .ok location, .ok (.directory entries) =>
    let layers := (enclosing location).map (IgnoreLayer.load files)
    let faults := layers.flatMap (·.faults)
    if faults.isEmpty then
      let found := walkNode files layers.reverse location path (.directory entries)
      .ok (found.filter (hasExtension extensions))
    else .error (.ignoreFiles faults)
  | .ok _, .ok (.file _) => .ok [path]
  | .error error, _ => .error (.system error)
  | _, .error error => .error (.system error)

/-- Paths in order, each way through the tree once, in the spelling that comes first. -/
def sortPaths (paths : List Path) : List Path :=
  (paths.mergeSort fun a b => a.compare b != .gt).eraseRepsBy fun a b => a.compare b == .eq

/-- The files that path arguments stand for, in order. -/
def collectFiles (files : FileSystem) (extensions : List String) (paths : List Path) :
    Except CollectError (List Path) := do
  return sortPaths (← paths.mapM (filesAt files extensions)).flatten

end ClosureLint
