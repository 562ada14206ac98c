import JackCompiler.Files.Tree

/-!
# Platforms

What a run needs from the system around it: directories, files and standard output. The platform
of a file tree is this for a tree that is kept as a value; it lists the names of a directory in an
order of its own choice.
-/

namespace JackCompiler

/-- Access to files and to standard output, with effects in `m`. -/
structure Platform (m : Type → Type) where
  isDirectory : Path → m Bool
  isFile : Path → m Bool
  /-- The names in a directory, in any order. -/
  list : Path → m (Except FileError (List String))
  read : Path → m (Except FileError String)
  createDirectory : Path → m (Except FileError Unit)
  write : Path → String → m (Except FileError Unit)
  print : String → m Unit

namespace Platform

variable {m : Type → Type} [Monad m]

/-- Tries to make directories, from a path upward, until one is made or was there before. Yields
those that lacked a directory above them, the outermost first. -/
def firstMissing (platform : Platform m) (missing : List Path) :
    List Path → m (Except FileError (List Path))
  | [] => pure (.ok missing)
  | path :: ancestors => do
      match ← platform.createDirectory path with
      | .ok () => pure (.ok missing)
      | .error .notFound => platform.firstMissing (path :: missing) ancestors
      | .error error =>
          if error = .alreadyExists && (← platform.isDirectory path) then pure (.ok missing)
          else pure (.error error)

/-- Makes the given directories in order. Those that are there already are left alone. -/
def createEach (platform : Platform m) : List Path → m (Except FileError Unit)
  | [] => pure (.ok ())
  | path :: paths => do
      match ← platform.createDirectory path with
      | .ok () => platform.createEach paths
      | .error error =>
          if error = .alreadyExists && (← platform.isDirectory path) then
            platform.createEach paths
          else
            pure (.error error)

/-- Makes a directory and all directories above it that its path shows. -/
def createDirectories (platform : Platform m) (path : Path) : m (Except FileError Unit) := do
  match ← platform.firstMissing [] path.ancestors with
  | .ok missing => platform.createEach missing
  | .error error => pure (.error error)

end Platform

/-- A file tree with what was written to standard output so far. -/
structure World where
  tree : FileTree
  printed : String := ""

namespace World

/-- Replaces the tree by the result of an operation, if it succeeds. -/
def update (operation : FileTree → Except FileError FileTree) :
    StateM World (Except FileError Unit) := do
  let world ← get
  match operation world.tree with
  | .ok tree =>
      set { world with tree }
      pure (.ok ())
  | .error error => pure (.error error)

/-- The platform of a file tree; `arrange` is the order in which it lists names. -/
def platform (arrange : List String → List String) : Platform (StateM World) where
  isDirectory path := do pure ((← get).tree.isDirectory path)
  isFile path := do pure ((← get).tree.isFile path)
  list path := do pure (((← get).tree.list path).map arrange)
  read path := do pure ((← get).tree.read path)
  createDirectory path := update (·.createDirectory path)
  write path text := update (·.write path text)
  print text := modify fun world => { world with printed := world.printed ++ text }

end World

end JackCompiler
