import ClosureLint.Files.Glob
import ClosureLint.Files.Tree
import ClosureLint.WhiteSpace

/-! Ignore files: which files and directories a walk leaves out. Each line of an ignore file is a
pattern for the paths below its directory, and the last pattern that fits decides. Of several
directories the innermost one with an opinion decides. `.ignore` files are heeded everywhere, and
before all others; `.gitignore` and `.git/info/exclude` only in a repository, up to its top. -/

namespace ClosureLint

structure IgnorePattern where
  glob : Glob
  /-- What fits is not left out after all. -/
  keeps : Bool
  onlyDirectories : Bool
  deriving DecidableEq, Repr

namespace IgnorePattern

/-- A line without the white space at its end, unless a blank there is escaped. -/
def trimmed (line : Text) : Text :=
  if ['\\', ' '].isSuffixOf line then line else (line.reverse.dropWhile isWhiteSpace).reverse

/-- The signs at the begin of a line: whether what fits is kept, whether the pattern is anchored to
its directory, and the pattern. An escaped sign stands for itself. -/
def signs : Text → Bool × Bool × Text
  | '\\' :: '!' :: rest => (false, false, '!' :: rest)
  | '\\' :: '#' :: rest => (false, false, '#' :: rest)
  | '!' :: '/' :: rest => (true, true, rest)
  | '!' :: rest => (true, false, rest)
  | '/' :: rest => (false, true, rest)
  | line => (false, false, line)

/-- A pattern without the slash at its end, and whether there is one. -/
def splitSlash (pattern : Text) : Text × Bool :=
  if ['\\', '/'].isSuffixOf pattern then (pattern.dropLast.dropLast, true)
  else if ['/'].isSuffixOf pattern then (pattern.dropLast, true)
  else (pattern, false)

/-- A pattern in full: one without a slash fits at any depth, and one for everything in a directory
does not fit the directory. -/
def complete (anchored : Bool) (pattern : Text) : Text :=
  let doubled := ['*', '*', '/'].isPrefixOf pattern || pattern = ['*', '*']
  let deep := if anchored || pattern.contains '/' || doubled then pattern
    else ['*', '*', '/'] ++ pattern
  if ['/', '*', '*'].isSuffixOf deep then deep ++ ['/', '*'] else deep

def ofTrimmed (line : Text) : Except GlobFault IgnorePattern := do
  let (keeps, anchored, signed) := signs line
  let (pattern, onlyDirectories) := splitSlash signed
  return ⟨← Glob.ofText (complete anchored pattern), keeps, onlyDirectories⟩

def fits (pattern : IgnorePattern) (path : List UInt8) (isDirectory : Bool) : Bool :=
  (isDirectory || !pattern.onlyDirectories) && pattern.glob.matchesBytes path

end IgnorePattern

/-- The lines of a text. The last one may go without a newline; otherwise a carriage return in front
of the newline belongs to it. -/
def linesFrom : (line : Text) → Text → List Text
  | [], [] => []
  | line, [] => [line.reverse]
  | line, '\n' :: rest =>
    (match line with
      | '\r' :: before => before.reverse
      | _ => line.reverse) :: linesFrom [] rest
  | line, c :: rest => linesFrom (c :: line) rest

/-- The lines of bytes up to the first one that is no text. -/
def textLines (bytes : List UInt8) : List Text :=
  let lines := (bytes.splitOn 10).map fun line => String.fromUTF8? ⟨line.toArray⟩
  (lines.takeWhile (·.isSome)).filterMap fun line => line.map fun s =>
    if ['\r'].isSuffixOf s.toList then s.toList.dropLast else s.toList

def Content.lines : Content → List Text
  | .text t => linesFrom [] t
  | .binary bytes => textLines bytes

structure IgnoreFile where
  patterns : List IgnorePattern
  /-- What is wrong with each line that cannot be read. -/
  faults : List String

namespace IgnoreFile

def empty : IgnoreFile := ⟨[], []⟩

def addLine (path : String) (file : IgnoreFile) (number : Nat) (line : Text) : IgnoreFile :=
  let trimmed := IgnorePattern.trimmed line
  if line.head? = some '#' || trimmed.isEmpty then file
  else
    match IgnorePattern.ofTrimmed trimmed with
    | .ok pattern => { file with patterns := file.patterns ++ [pattern] }
    | .error fault =>
      let cause := s!"error parsing glob '{String.ofList trimmed}': {fault.message}"
      { file with faults := file.faults ++ [s!"{path}: line {number}: {cause}"] }

/-- The ignore file with a content at a path. Byte order marks at its front count nothing. -/
def ofContent (path : String) (content : Content) : IgnoreFile :=
  let lines := match content.lines with
    | first :: rest => first.dropWhile (· = '\ufeff') :: rest
    | [] => []
  (lines.zipIdx 1).foldl (fun file (line, number) => file.addLine path number line) empty

def load (files : FileSystem) (path : Path) : IgnoreFile :=
  match files.read path with
  | .ok content => ofContent path.spelling content
  | .error _ => empty

/-- What the file says of a path: whether it is kept, or nothing if no pattern fits. -/
def keeps? (file : IgnoreFile) (path : List UInt8) (isDirectory : Bool) : Option Bool :=
  (file.patterns.reverse.find? fun pattern => pattern.fits path isDirectory).map (·.keeps)

end IgnoreFile

/-- What a directory on the way to a file says of the files below it. -/
structure IgnoreLayer where
  location : Location
  plain : IgnoreFile
  versioned : IgnoreFile
  excluded : IgnoreFile
  /-- The directory is the top of a repository. -/
  isRepository : Bool

namespace IgnoreLayer

/-- The words before the path in a file that stands for the directory of a repository. -/
def gitDirectoryWord : Text := ['g', 'i', 't', 'd', 'i', 'r', ':', ' ']

/-- The directory with what several checkouts of a repository have in common. A file `.git` names
the directory of one checkout, whose file `commondir` names the common one. -/
def commonDirectory? (files : FileSystem) (git : Path) : Option Path := do
  match files.node git with
  | .ok (.file content) =>
    let line ← content.lines.head?
    guard (gitDirectoryWord.isPrefixOf line)
    let checkout : Path := ⟨String.ofList (line.drop gitDirectoryWord.length)⟩
    let common ← (← (files.read (checkout.join "commondir")).toOption).lines.head?
    if common.head? = some '.' then some (checkout.join (String.ofList common))
    else some ⟨String.ofList common⟩
  | _ => some git

def absolute (location : Location) : Path := ⟨"/" ++ "/".intercalate location⟩

def load (files : FileSystem) (location : Location) : IgnoreLayer :=
  let directory := absolute location
  let git := directory.join ".git"
  { location := location
    plain := IgnoreFile.load files (directory.join ".ignore")
    versioned := IgnoreFile.load files (directory.join ".gitignore")
    excluded := match commonDirectory? files git with
      | some common => IgnoreFile.load files (common.join "info/exclude")
      | none => .empty
    isRepository := files.exists? git || files.exists? (directory.join ".jj") }

/-- What is wrong with the ignore files of the directory. -/
def faults (layer : IgnoreLayer) : List String :=
  layer.plain.faults ++ layer.versioned.faults ++ layer.excluded.faults

/-- What one of the directory's ignore files says of a location. -/
def keeps? (layer : IgnoreLayer) (file : IgnoreLayer → IgnoreFile) (location : Location)
    (isDirectory : Bool) : Option Bool :=
  let path := "/".intercalate (location.drop layer.location.length)
  (file layer).keeps? path.toUTF8.toList isDirectory

/-- The directories, from the innermost one to the top of the repository that it lies in. -/
def withinRepository : List IgnoreLayer → List IgnoreLayer
  | [] => []
  | layer :: outer => if layer.isRepository then [layer] else layer :: withinRepository outer

/-- What the ignore files of the directories around a location say of it, where the innermost
directory comes first. -/
def verdict? (layers : List IgnoreLayer) (location : Location) (isDirectory : Bool) :
    Option Bool :=
  let opinion := fun (layers : List IgnoreLayer) file =>
    layers.findSome? fun layer => layer.keeps? file location isDirectory
  let repository := if layers.any (·.isRepository) then withinRepository layers else []
  (opinion layers plain).or ((opinion repository versioned).or (opinion repository excluded))

/-- Whether a walk leaves out a file or directory. Hidden ones are left out unless they are kept
expressly. -/
def leavesOut (layers : List IgnoreLayer) (location : Location) (isDirectory : Bool) : Bool :=
  match verdict? layers location isDirectory with
  | some keeps => !keeps
  | none => (location.getLast?.getD "").startsWith "."

end IgnoreLayer

end ClosureLint
