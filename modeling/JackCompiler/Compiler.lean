import JackCompiler.Compilation.Class
import JackCompiler.Token.Lexer

/-!
# The compiler

Compiles the units of a program one after another. Labels are global in the target machine, so all
units of a program draw from one source; a unit that fails keeps the labels it has drawn.
-/

namespace JackCompiler

/-- The code of one class. -/
structure CompiledUnit where
  className : String
  code : Code
  deriving DecidableEq

/-- Why a unit has no code. -/
inductive Failure
  | error (error : Error)
  | broken (breakdown : Breakdown)
  deriving DecidableEq

namespace Failure

/-- Locates a cause in its unit. -/
def ofCause (unit source : String) (cause : Located ErrorKind) : Failure :=
  match Error.locate? unit source cause with
  | some located => error located
  | none => broken .spanOutsideText

/-- What a stopped pass means for its unit. -/
def ofHalt (unit source : String) : Halt → Failure
  | .rejected cause => ofCause unit source cause
  | .broken breakdown => broken breakdown

end Failure

variable {σ : Type} [LabelSource σ]

/-- Runs the pass over a stream of tokens. Yields the class name and code, or why the pass stopped,
and the labels left. -/
def compileTokens (labels : σ) (source : String) (stream : TokenStream) :
    Except Halt CompiledUnit × σ :=
  let context : PassContext := ⟨source, stream.size + 1⟩
  match Pass.classDeclaration.run context ⟨stream, labels, .empty, ""⟩ with
  | .done code state => (.ok ⟨state.className, code⟩, state.labels)
  | .halted reason state => (.error reason, state.labels)

/-- Compiles the class in `source`. The name of the unit serves error messages alone. -/
def compile (labels : σ) (unit source : String) : Except Failure CompiledUnit × σ :=
  match TokenStream.ofText source with
  | .ok stream =>
      let (outcome, labels) := compileTokens labels source stream
      (outcome.mapError (Failure.ofHalt unit source), labels)
  | .error error =>
      (.error (.ofCause unit source (error.span.locate (.lexical error.value))), labels)

/-- A compiler holds the labels for the units to come. -/
structure Compiler (σ : Type) where
  labels : σ

namespace Compiler

/-- A compiler with all labels to draw. -/
def fresh : Compiler LabelCounter := ⟨{}⟩

/-- Compiles one unit. -/
def compile (compiler : Compiler σ) (unit source : String) :
    Except Failure CompiledUnit × Compiler σ :=
  let (outcome, labels) := JackCompiler.compile compiler.labels unit source
  (outcome, ⟨labels⟩)

/-- Compiles units in order, failing ones included. -/
def compileAll (compiler : Compiler σ) :
    List (String × String) → List (Except Failure CompiledUnit) × Compiler σ
  | [] => ([], compiler)
  | (unit, source) :: units =>
      let (outcome, compiler) := compiler.compile unit source
      let (outcomes, compiler) := compiler.compileAll units
      (outcome :: outcomes, compiler)

end Compiler

end JackCompiler
