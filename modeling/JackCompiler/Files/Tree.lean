import JackCompiler.Files.Path

/-!
# File trees

A file tree without links: directories and files, each at its place. A path is walked segment by
segment from the working directory, or from the root if it is absolute, and every place on the way
has to be a directory. Paths and names have a longest length, counted in bytes of UTF-8.
-/

namespace JackCompiler

/-- Why an access to a file or directory fails. -/
inductive FileError
  | notFound
  | alreadyExists
  | notDirectory
  | isDirectory
  | nameTooLong
  /-- A path cannot hold the character NUL. -/
  | nulInPath
  /-- The content is not UTF-8. -/
  | notText
  /-- Anything else, in the words of the system. -/
  | other (reason : String)
  deriving DecidableEq

namespace FileError

/-- The error as the reader is told it. -/
def message : FileError → String
  | notFound => "No such file or directory (os error 2)"
  | alreadyExists => "File exists (os error 17)"
  | notDirectory => "Not a directory (os error 20)"
  | isDirectory => "Is a directory (os error 21)"
  | nameTooLong => "File name too long (os error 36)"
  | nulInPath => "file name contained an unexpected NUL byte"
  | notText => "stream did not contain valid UTF-8"
  | other reason => reason

end FileError

/-- A place in a file tree: the names that lead to it from the root. -/
abbrev Location := List String

/-- What is at a place. -/
inductive Entry
  | directory
  | file (content : ByteArray)

/-- A file tree, its places in the order in which directories list them. -/
structure FileTree where
  entries : List (Location × Entry)
  /-- The directory that relative paths start from. -/
  workingDirectory : Location

namespace FileTree

/-- What is at a place. The root is always a directory. -/
def entry? (tree : FileTree) (place : Location) : Option Entry :=
  if place = [] then some .directory else tree.entries.lookup place

/-- Whether there is a directory at a place. -/
def hasDirectory (tree : FileTree) (place : Location) : Bool :=
  tree.entry? place matches some .directory

/-- Whether there is a file at a place. -/
def hasFile (tree : FileTree) (place : Location) : Bool :=
  tree.entry? place matches some (.file _)

/-- The names in a directory. -/
def names (tree : FileTree) (place : Location) : List String :=
  tree.entries.filterMap fun (location, _) =>
    if location.dropLast = place then location.getLast? else none

/-- Puts an entry at a place, instead of the one there if there is one. -/
def put (tree : FileTree) (place : Location) (entry : Entry) : FileTree :=
  if (tree.entries.lookup place).isSome then
    { tree with entries := tree.entries.map fun (location, old) =>
        (location, if location = place then entry else old) }
  else
    { tree with entries := tree.entries ++ [(place, entry)] }

/-- The longest name in bytes. -/
def maxNameLength : Nat := 255

/-- The longest path in bytes. -/
def maxPathLength : Nat := 4095

/-- Refuses a path that no place is sought for, whatever the tree holds. -/
def screen (path : Path) : Except FileError Unit :=
  if path.text.toList.contains '\x00' then .error .nulInPath
  else if maxPathLength < path.text.utf8ByteSize then .error .nameTooLong
  else .ok ()

/-- Walks on by one segment, from a place that has to be a directory. -/
def walk (tree : FileTree) (place : Location) (segment : String) : Except FileError Location :=
  match tree.entry? place with
  | none => .error .notFound
  | some (.file _) => .error .notDirectory
  | some .directory =>
      if Path.isIdle segment then .ok place
      else if segment = ".." then .ok place.dropLast
      else if maxNameLength < segment.utf8ByteSize then .error .nameTooLong
      else .ok (place ++ [segment])

/-- Walks along segments. -/
def walkAll (tree : FileTree) (place : Location) (segments : List String) :
    Except FileError Location :=
  segments.foldlM tree.walk place

/-- Where a path starts. -/
def start (tree : FileTree) (path : Path) : Location :=
  if path.isAbsolute then [] else tree.workingDirectory

/-- The place that a path with the given segments leads to, which need not hold anything. -/
def locateSegments (tree : FileTree) (path : Path) (segments : List String) :
    Except FileError Location := do
  screen path
  tree.walkAll (tree.start path) segments

/-- The place that a path leads to, which need not hold anything. -/
def locate (tree : FileTree) (path : Path) : Except FileError Location :=
  tree.locateSegments path path.segments

/-- Whether a path leads to a directory. -/
def isDirectory (tree : FileTree) (path : Path) : Bool :=
  match tree.locate path with
  | .ok place => tree.hasDirectory place
  | .error _ => false

/-- Whether a path leads to a file. -/
def isFile (tree : FileTree) (path : Path) : Bool :=
  match tree.locate path with
  | .ok place => tree.hasFile place
  | .error _ => false

/-- The names in the directory that a path leads to. -/
def list (tree : FileTree) (path : Path) : Except FileError (List String) := do
  let place ← tree.locate path
  match tree.entry? place with
  | some .directory => pure (tree.names place)
  | some (.file _) => throw .notDirectory
  | none => throw .notFound

/-- The text of the file that a path leads to. -/
def read (tree : FileTree) (path : Path) : Except FileError String := do
  let place ← tree.locate path
  match tree.entry? place with
  | some (.file content) =>
      match String.fromUTF8? content with
      | some text => pure text
      | none => throw .notText
  | some .directory => throw .isDirectory
  | none => throw .notFound

/-- Writes a text to the file that a path leads to, and makes the file if there is none. -/
def write (tree : FileTree) (path : Path) (text : String) : Except FileError FileTree := do
  let place ← tree.locate path
  if tree.hasDirectory place then throw .isDirectory
  pure (tree.put place (.file text.toUTF8))

/-- Makes the directory that a path leads to. Slashes at the end of the path do not count, and a
last segment that is a dot or two names what is there already. -/
def createDirectory (tree : FileTree) (path : Path) : Except FileError FileTree := do
  let segments := (path.segments.reverse.dropWhile (· = "")).reverse
  let place ← tree.locateSegments path segments
  if (tree.entry? place).isSome then throw .alreadyExists
  pure (tree.put place .directory)

end FileTree

end JackCompiler
