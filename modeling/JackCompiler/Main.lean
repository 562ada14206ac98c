import JackCompiler.CommandLine.Run

/-!
# The command line program

Runs the compiler on the files of the system. Everything it decides is decided in the modules
below it; this one reads, writes and prints.

Directories are listed by whoever starts the program: when the path is a directory, the names in it
are read from standard input, one on a line and in any order, as in `ls DIR | jackc DIR`.
-/

namespace JackCompiler

/-- What an error of the system means for the file it was about. -/
def FileError.ofSystem (error : IO.Error) : FileError :=
  match error with
  | .noFileOrDirectory .. => .notFound
  | .alreadyExists .. => .alreadyExists
  | .inappropriateType _ code _ => if code = 21 then .isDirectory else .notDirectory
  | _ => .other (toString error)

/-- Does something to a file and keeps what went wrong. -/
def attempt {α : Type} (action : IO α) : IO (Except FileError α) := do
  try
    pure (.ok (← action))
  catch error =>
    pure (.error (.ofSystem error))

/-- Whether something can be opened for reading. -/
def canOpen (path : String) : IO Bool := do
  match ← attempt (IO.FS.Handle.mk path .read) with
  | .ok _ => pure true
  | .error _ => pure false

/-- Whether a path leads to a directory: only a directory holds itself as a dot. -/
def systemIsDirectory (path : Path) : IO Bool := canOpen (path.text ++ "/.")

/-- The lines of a stream, up to its end. -/
partial def remainingLines (input : IO.FS.Stream) (lines : List String) : IO (List String) := do
  let line ← input.getLine
  if line.isEmpty then
    pure lines.reverse
  else
    remainingLines input (Text.lines line ++ lines)

/-- The text of a file. -/
def systemRead (path : Path) : IO (Except FileError String) := do
  match ← attempt (IO.FS.readBinFile path.text) with
  | .error error => pure (.error error)
  | .ok content =>
      match String.fromUTF8? content with
      | some text => pure (.ok text)
      | none => pure (.error .notText)

/-- The files and the standard output of the system. -/
def systemPlatform : Platform IO where
  isDirectory := systemIsDirectory
  isFile path := do pure ((← canOpen path.text) && !(← systemIsDirectory path))
  list _ := do attempt (remainingLines (← IO.getStdin) [])
  read := systemRead
  createDirectory path := attempt (IO.FS.createDir path.text)
  write path text := attempt (IO.FS.writeFile path.text text)
  print text := do (← IO.getStdout).putStr text

/-- How the program is used. -/
def usage : String := "usage: jackc PATH [--out-dir DIR | --stdout]"

end JackCompiler

open JackCompiler in
/-- Runs the command line. -/
def main (arguments : List String) : IO UInt32 := do
  let request := Request.ofArguments arguments
  let report ← answer systemPlatform request
  match request, report.error? with
  | .information, _ => IO.println usage
  | .misuse, _ => IO.eprintln usage
  | .compile _, some error => IO.eprintln ("error: " ++ error.message)
  | .compile _, none => pure ()
  pure (UInt32.ofNat report.exitStatus)
