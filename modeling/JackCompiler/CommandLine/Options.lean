import JackCompiler.Files.Path

/-!
# Command line options

    jackc PATH [--out-dir DIR | --stdout]

Arguments are taken from left to right. A request for help or for the version ends this at once,
and so does an argument that cannot be taken. What is missing or contradictory shows at the end.
-/

namespace JackCompiler

/-- Where the code of the units goes. -/
inductive Destination
  /-- A file beside each source. -/
  | besideSources
  /-- A file in a directory, which is made if it is missing. -/
  | directory (path : Path)
  | standardOutput
  deriving DecidableEq

/-- What a run is asked to do. -/
structure Options where
  /-- A source file, or a directory whose source files form one program. -/
  path : Path
  destination : Destination
  deriving DecidableEq

/-- What a command line means. -/
inductive Request
  | compile (options : Options)
  /-- Help or the version is asked for. -/
  | information
  /-- The arguments do not fit the usage. -/
  | misuse
  deriving DecidableEq

/-- What the arguments taken so far have set. -/
structure OptionDraft where
  path? : Option String := none
  directory? : Option String := none
  standardOutput : Bool := false
  /-- The next argument is the directory for the output. -/
  awaitsDirectory : Bool := false

namespace OptionDraft

/-- Takes an argument as the path. There is one path, and it is not empty. -/
def withPath? (draft : OptionDraft) (argument : String) : Option OptionDraft :=
  if draft.path?.isSome || argument = "" then none
  else some { draft with path? := some argument }

/-- Takes an argument as the directory for the output. It is given once, and is not empty. -/
def withDirectory? (draft : OptionDraft) (argument : String) : Option OptionDraft :=
  if draft.directory?.isSome || argument = "" then none
  else some { draft with directory? := some argument, awaitsDirectory := false }

/-- What the whole command line means. -/
def finish (draft : OptionDraft) : Request :=
  match draft.path? with
  | none => .misuse
  | some path =>
      if draft.awaitsDirectory then .misuse
      else
        match draft.directory?, draft.standardOutput with
        | some _, true => .misuse
        | some directory, false => .compile ⟨⟨path⟩, .directory ⟨directory⟩⟩
        | none, true => .compile ⟨⟨path⟩, .standardOutput⟩
        | none, false => .compile ⟨⟨path⟩, .besideSources⟩

end OptionDraft

/-- How an argument reads by itself. -/
inductive ArgumentForm
  /-- The mark after which every argument is a path. -/
  | separator
  /-- An option with a long name, and its value if one is attached. -/
  | long (name : String) (value? : Option String)
  /-- An option with a short name, the first character after the dash. -/
  | short (name : Char)
  | plain

namespace ArgumentForm

/-- A long option's name goes up to the first equals sign. -/
def ofLong (characters : List Char) : ArgumentForm :=
  let name := String.ofList (characters.takeWhile (· ≠ '='))
  match characters.dropWhile (· ≠ '=') with
  | [] => long name none
  | _ :: value => long name (some (String.ofList value))

/-- How an argument reads. A lone dash is an ordinary argument. -/
def ofArgument (argument : String) : ArgumentForm :=
  match argument.toList with
  | ['-', '-'] => separator
  | '-' :: '-' :: characters => ofLong characters
  | '-' :: character :: _ => short character
  | _ => plain

end ArgumentForm

namespace Request

/-- Takes the arguments after the separator, all of them as paths. -/
def ofPaths (draft : OptionDraft) : List String → Request
  | [] => draft.finish
  | argument :: arguments =>
      match draft.withPath? argument with
      | some draft => ofPaths draft arguments
      | none => misuse

/-- Takes arguments one by one. -/
def ofArgumentsFrom (draft : OptionDraft) : List String → Request
  | [] => draft.finish
  | argument :: arguments =>
      match ArgumentForm.ofArgument argument, draft.awaitsDirectory with
      | .plain, true =>
          match draft.withDirectory? argument with
          | some draft => ofArgumentsFrom draft arguments
          | none => misuse
      | _, true => misuse
      | .plain, false =>
          match draft.withPath? argument with
          | some draft => ofArgumentsFrom draft arguments
          | none => misuse
      | .separator, false => ofPaths draft arguments
      | .short name, false => if name = 'h' || name = 'V' then information else misuse
      | .long name value?, false =>
          match name, value? with
          | "help", none => information
          | "version", none => information
          | "stdout", none =>
              if draft.standardOutput then misuse
              else ofArgumentsFrom { draft with standardOutput := true } arguments
          | "out-dir", some value =>
              match draft.withDirectory? value with
              | some draft => ofArgumentsFrom draft arguments
              | none => misuse
          | "out-dir", none =>
              if draft.directory?.isSome then misuse
              else ofArgumentsFrom { draft with awaitsDirectory := true } arguments
          | _, _ => misuse

/-- What a command line means, without the name of the program. -/
def ofArguments (arguments : List String) : Request :=
  ofArgumentsFrom {} arguments

end Request

end JackCompiler
