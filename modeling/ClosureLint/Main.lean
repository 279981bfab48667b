import ClosureLint.Command.Run

/-! The program: it reads those parts of the file tree that the arguments lead to, runs the command
and carries out what comes of it. -/

namespace ClosureLint.Program

/-- The names of files that walks look into, besides those that are linted. -/
def consulted : List String :=
  [".ignore", ".gitignore", ".git", "exclude", "commondir", ConfigFile.name]

/-- Whether the contents of a file in a directory can matter. -/
def matters (name : String) : Bool :=
  consulted.contains name || hasExtension (Linter.ofConfig none).extensions ⟨name⟩

/-- The node at a path, if it can be read; in the directory of a repository only what walks look
into. -/
partial def readNode? (path : String) (wanted : Bool) : IO (Option Node) := do
  let here ← IO.currentDir
  if ← (here / path).isDir then
    let entries ← try (here / path).readDir catch _ => pure #[]
    let mut nodes : List (String × Node) := []
    for entry in entries do
      let name := entry.fileName
      let skipped := (path.splitOn "/").contains ".git" && name ≠ "info" && name ≠ "exclude"
      unless skipped do
        if let some node ← readNode? (path ++ "/" ++ name) (matters name) then
          nodes := (name, node) :: nodes
    return some (.directory nodes)
  else if ← (here / path).pathExists then
    if wanted then
      try return some (.file (.ofBytes (← IO.FS.readBinFile path)))
      catch _ => return none
    else return some (.file (.text []))
  else return none

/-- The locations that a path passes on its way from a directory. -/
def passed (start : Location) (path : String) : List Location :=
  let step := fun (way : List Location) (part : String) =>
    let now := way.headD start
    if part = "" || part = "." then way
    else if part = ".." then now.dropLast :: way
    else (now ++ [part]) :: way
  (path.splitOn "/").foldl step [if path.startsWith "/" then [] else start]

def take (root : Node) (location : Location) (wanted : Bool) : IO Node := do
  match ← readNode? (IgnoreLayer.absolute location).spelling wanted with
  | some node => return Node.put node location root
  | none => return root

/-- Takes the directories around a location into a tree, with what they say of the files below. -/
def takeAround (root : Node) (location : Location) : IO Node := do
  let mut root := root
  for directory in enclosing location ++ [location] do
    if ← ((← IO.currentDir) / (IgnoreLayer.absolute directory).spelling).isDir then
      root := root.makeDirectory directory
      for name in consulted ++ [".jj"] do
        root ← take root (directory ++ [name]) (name ≠ ".jj")
  return root

def readTree (arguments : List String) : IO FileSystem := do
  let here := (Path.mk (← IO.currentDir).toString).components.filterMap fun
    | .name s => some s
    | _ => none
  let mut root ← takeAround (.directory []) here
  let (paths, config) := match Command.ofArguments arguments with
    | .ok (.lint arguments) => (arguments.paths, arguments.config)
    | .ok (.rules config _) => ([], config)
    | .ok (.init path _) => ([path], none)
    | .error _ => ([], none)
  for path in paths ++ config.toList do
    for location in (passed here path.spelling).reverse do
      root ← takeAround root location
    if let some location := (passed here path.spelling).head? then
      root ← take root location true
  return ⟨root, here⟩

def tell : Notice → IO Unit
  | .line text => IO.eprintln text
  | .failure message => IO.eprintln ("Error: " ++ message)
  | .usage => IO.eprintln "error: these arguments fit no command; try --help"
  | .help => IO.eprint (String.ofList (textOfLines (Command.helpLines none)))

def carryOut (outcome : Outcome) : IO UInt32 := do
  try
    if let some (location, text) := outcome.written then
      IO.FS.writeFile (IgnoreLayer.absolute location).spelling (String.ofList text)
    IO.print (String.ofList outcome.output)
    outcome.notices.forM tell
    return outcome.code.toUInt32
  catch error =>
    tell (.failure (toString error))
    return 1

end ClosureLint.Program

def main (arguments : List String) : IO UInt32 := do
  let files ← ClosureLint.Program.readTree arguments
  ClosureLint.Program.carryOut (ClosureLint.Command.run files arguments)
