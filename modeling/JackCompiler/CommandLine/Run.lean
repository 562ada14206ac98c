import JackCompiler.CommandLine.Options
import JackCompiler.Compiler
import JackCompiler.Files.Platform

/-!
# Runs of the command line

A run collects its sources, makes the directory for the output, and compiles one source after
another with one sequence of labels. The code of a source is written before the next one is read,
so whatever stops a run leaves the output of the sources before it.
-/

namespace JackCompiler

/-- The extension of source files. -/
def sourceExtension : String := "jack"

/-- The extension of code files. -/
def codeExtension : String := "vm"

/-- What stops a run. -/
inductive RunError
  | notSource (path : Path)
  | noSources (directory : Path)
  | cannotList (directory : Path) (error : FileError)
  | cannotCreate (directory : Path) (error : FileError)
  | cannotRead (source : Path) (error : FileError)
  | cannotWrite (output : Path) (error : FileError)
  | cannotCompile (source : Path) (failure : Failure)
  deriving DecidableEq

namespace RunError

private def access (action : String) (path : Path) (error : FileError) : String :=
  "failed to " ++ action ++ " " ++ path.text ++ ": " ++ error.message

/-- The error as the reader is told it. -/
def message : RunError → String
  | notSource path => path.text ++ " is not a ." ++ sourceExtension ++ " file"
  | noSources directory => "no ." ++ sourceExtension ++ " files in " ++ directory.text
  | cannotList directory error => access "list" directory error
  | cannotCreate directory error => access "create" directory error
  | cannotRead source error => access "read" source error
  | cannotWrite output error => access "write" output error
  | cannotCompile _ (.error error) => error.message
  | cannotCompile source (.broken _) => "compilation broke off in " ++ source.text

end RunError

/-- Whether a path has the extension of source files. -/
def isSource (path : Path) : Bool := path.extension? = some sourceExtension

/-- The name by which errors call a source. -/
def unitName (source : Path) : String := source.fileName?.getD source.text

/-- Where the code of a source goes, unless it goes to standard output. -/
def outputPath (directory? : Option Path) (source : Path) : Path :=
  let beside := source.withExtension codeExtension
  match directory? with
  | some directory => directory.join (beside.fileName?.getD "")
  | none => beside

/-- Orders names by their bytes. -/
def sortedNames (names : List String) : List String :=
  names.mergeSort fun left right => decide (left ≤ right)

section

variable {m : Type → Type} [Monad m]

/-- Keeps the paths that lead to files. -/
def onlyFiles (platform : Platform m) : List Path → m (List Path)
  | [] => pure []
  | path :: paths => do
      let isFile ← platform.isFile path
      let files ← onlyFiles platform paths
      pure (if isFile then path :: files else files)

/-- The sources of a run: a single file, or the source files directly inside a directory in the
order of their names. -/
def collectSources (platform : Platform m) (path : Path) : m (Except RunError (List Path)) := do
  if ← platform.isDirectory path then
    match ← platform.list path with
    | .error error => pure (.error (.cannotList path error))
    | .ok names =>
        let sources ← onlyFiles platform (((sortedNames names).map path.join).filter isSource)
        pure (if sources.isEmpty then .error (.noSources path) else .ok sources)
  else
    pure (if isSource path then .ok [path] else .error (.notSource path))

/-- Makes the directory for the output, if there is to be one. -/
def prepare (platform : Platform m) : Destination → m (Except RunError Unit)
  | .directory directory => do
      pure ((← platform.createDirectories directory).mapError (.cannotCreate directory))
  | .besideSources => pure (.ok ())
  | .standardOutput => pure (.ok ())

/-- Writes the code of a source to a file. -/
def writeCode (platform : Platform m) (output : Path) (code : Code) :
    m (Except RunError Unit) := do
  pure ((← platform.write output code.text).mapError (.cannotWrite output))

/-- Brings the code of a source to its destination. -/
def emit (platform : Platform m) (destination : Destination) (source : Path) (code : Code) :
    m (Except RunError Unit) :=
  match destination with
  | .standardOutput => do
      platform.print code.text
      pure (.ok ())
  | .directory directory => writeCode platform (outputPath (some directory) source) code
  | .besideSources => writeCode platform (outputPath none source) code

/-- Compiles sources in order, up to the first that cannot be read, compiled or written. -/
def compileSources (platform : Platform m) (destination : Destination)
    (compiler : Compiler LabelCounter) : List Path → m (Except RunError Unit)
  | [] => pure (.ok ())
  | source :: sources => do
      match ← platform.read source with
      | .error error => pure (.error (.cannotRead source error))
      | .ok text =>
          match compiler.compile (unitName source) text with
          | (.error failure, _) => pure (.error (.cannotCompile source failure))
          | (.ok unit, compiler) =>
              match ← emit platform destination source unit.code with
              | .error error => pure (.error error)
              | .ok () => compileSources platform destination compiler sources

/-- A whole run. -/
def run (platform : Platform m) (options : Options) : m (Except RunError Unit) := do
  match ← collectSources platform options.path with
  | .error error => pure (.error error)
  | .ok sources =>
      match ← prepare platform options.destination with
      | .error error => pure (.error error)
      | .ok () => compileSources platform options.destination .fresh sources

/-- How a run ends: its exit status, and what the reader is told if it failed. -/
structure Report where
  exitStatus : Nat
  error? : Option RunError
  deriving DecidableEq

/-- Answers a request. Help and version are no business of a platform. -/
def answer (platform : Platform m) : Request → m Report
  | .information => pure ⟨0, none⟩
  | .misuse => pure ⟨2, none⟩
  | .compile options => do
      match ← run platform options with
      | .ok () => pure ⟨0, none⟩
      | .error error => pure ⟨1, some error⟩

end

end JackCompiler
