import JackCompiler.Proofs.Execution.Machine
import JackCompiler.Proofs.Generation.Generate

/-!
# The meaning of syntax trees

Expressions are evaluated strictly from left to right, statements are executed in order. Calls do
what the routines say, and so do products, quotients and string constants, which the runtime library
computes. A run of statements ends normally or with the word that they return; a run that goes on
forever has no outcome.
-/

namespace JackCompiler

namespace Segment

/-- The segments that variables live in. -/
def HoldsVariables (segment : Segment) : Prop :=
  segment = .argument ∨ segment = .local ∨ segment = .static ∨ segment = .this

end Segment

namespace Memory

/-- The word that a variable holds. No variable lives outside the first four segments. -/
def read (memory : Memory) (place : Variable) : Word :=
  match place.segment with
  | .argument => memory.frame.arguments place.index
  | .local => memory.frame.locals place.index
  | .static => memory.globals.statics place.index
  | .this => memory.globals.heap (memory.frame.this + place.index)
  | .constant | .that | .pointer | .temp => 0

/-- A memory with the word of a variable replaced. -/
def write (memory : Memory) (place : Variable) (word : Word) : Memory :=
  match place.segment with
  | .argument => memory.writeArgument place.index word
  | .local => memory.writeLocal place.index word
  | .static => memory.writeStatic place.index word
  | .this => memory.writeHeap (memory.frame.this + place.index) word
  | .constant | .that | .pointer | .temp => memory

end Memory

namespace Environment

/-- The word that a name stands for. -/
def read (environment : Environment) (memory : Memory) (name : String) : Word :=
  match environment.place? name with
  | some place => memory.read place
  | none => 0

/-- A memory with the word of a name replaced. -/
def write (environment : Environment) (memory : Memory) (name : String) (word : Word) : Memory :=
  match environment.place? name with
  | some place => memory.write place word
  | none => memory

end Environment

/-! ## Operators and constants -/

/-- What a binary operator makes of two words: truth of comparisons, and products by the library. -/
def BinaryOperator.compute (routines : Routines) (left right : Word) (globals : Globals) :
    BinaryOperator → Word × Globals
  | add => (left + right, globals)
  | sub => (left - right, globals)
  | mul => routines.result Library.multiply [left, right] globals
  | div => routines.result Library.divide [left, right] globals
  | and => (left &&& right, globals)
  | or => (left ||| right, globals)
  | lt => (Word.ofBool (Word.less left right), globals)
  | gt => (Word.ofBool (Word.less right left), globals)
  | eq => (Word.ofBool (left = right), globals)

/-- What a unary operator makes of a word. -/
def UnaryOperator.compute (word : Word) : UnaryOperator → Word
  | neg => -word
  | not => ~~~word

/-- The word that a keyword constant stands for. -/
def KeywordConstant.value (frame : Frame) : KeywordConstant → Word
  | true => Word.truth
  | false | null => 0
  | this => frame.this

namespace Grammar

/-- A new string with characters appended one after another. -/
def stringValue (routines : Routines) (contents : String) (globals : Globals) : Word × Globals :=
  (contents.toList.flatMap String.utf8EncodeChar).foldl
    (fun made character =>
      routines.result Library.appendCharacter [made.1, character.toUInt16] made.2)
    (routines.result Library.newString [UInt16.ofNat contents.utf8ByteSize] globals)

/-! ## Expressions -/

section Expressions

variable (routines : Routines) (environment : Environment) (frame : Frame)

mutual

/-- The value of an expression, whose operators are applied from left to right. -/
def Expression.eval : Expression → Globals → Word × Globals
  | .mk first others, globals =>
      let (word, globals) := first.eval globals
      others.eval word globals

/-- Joins a word to operands from left to right. -/
def Operands.eval : Operands → Word → Globals → Word × Globals
  | .nil, word, globals => (word, globals)
  | .cons operator operand others, word, globals =>
      let (right, globals) := operand.eval globals
      let (word, globals) := operator.compute routines word right globals
      others.eval word globals

/-- The value of a term, and what computing it does to the globals. -/
def Term.eval : Term → Globals → Word × Globals
  | .integer value, globals => (value, globals)
  | .string contents, globals => stringValue routines contents globals
  | .constant value, globals => (value.value frame, globals)
  | .name text, globals => (environment.read ⟨frame, globals⟩ text, globals)
  | .element array index, globals =>
      let base := environment.read ⟨frame, globals⟩ array
      let (offset, globals) := index.eval globals
      (globals.heap (base + offset), globals)
  | .call call, globals => call.eval globals
  | .group inner, globals => inner.eval globals
  | .unary operator operand, globals =>
      let (word, globals) := operand.eval globals
      (operator.compute word, globals)

/-- The object that a method is called on is evaluated before the arguments. -/
def Call.eval : Call → Globals → Word × Globals
  | .own subroutine arguments, globals =>
      let (words, globals) := arguments.eval globals
      routines.result (environment.className ++ "." ++ subroutine) (frame.this :: words) globals
  | .qualified owner subroutine arguments, globals =>
      match environment.place? owner with
      | some receiver =>
          let object := Memory.read ⟨frame, globals⟩ receiver
          let (words, globals) := arguments.eval globals
          routines.result (receiver.type ++ "." ++ subroutine) (object :: words) globals
      | none =>
          let (words, globals) := arguments.eval globals
          routines.result (owner ++ "." ++ subroutine) words globals

/-- The values of arguments, computed from the first one on. -/
def Arguments.eval : Arguments → Globals → List Word × Globals
  | .nil, globals => ([], globals)
  | .cons first others, globals =>
      let (word, globals) := first.eval globals
      let (words, globals) := others.eval globals
      (word :: words, globals)

end

end Expressions

/-! ## Statements -/

/-- How a run of statements ends. -/
inductive Outcome
  | normal (memory : Memory)
  | returned (word : Word) (memory : Memory)

section Statements

variable (routines : Routines) (environment : Environment)

/-- The value of an expression and the memory that its evaluation leaves. -/
def Expression.Yields (tree : Expression) (before : Memory) (word : Word) (after : Memory) : Prop :=
  tree.eval routines environment before.frame before.globals = (word, after.globals) ∧
    after.frame = before.frame

mutual

/-- How statements run from a memory. -/
inductive Statement.Runs : Statement → Memory → Outcome → Prop
  | assign {target : String} {value : Expression} {before after : Memory} {word : Word}
      (evaluated : value.Yields routines environment before word after) :
      Statement.Runs (.assign target value) before (.normal (environment.write after target word))
  | assignElement {array : String} {index value : Expression} {before middle after : Memory}
      {offset word : Word} (indexed : index.Yields routines environment before offset middle)
      (evaluated : value.Yields routines environment middle word after) :
      Statement.Runs (.assignElement array index value) before
        (.normal (after.writeHeap (environment.read before array + offset) word))
  | chosen {test : Expression} {body : Statements} {alternative : Alternative}
      {before tested : Memory} {outcome : Outcome}
      (holds : test.Yields routines environment before Word.truth tested)
      (run : Statements.Runs body tested outcome) :
      Statement.Runs (.choice test body alternative) before outcome
  | passed {test : Expression} {body : Statements} {alternative : Alternative}
      {before tested : Memory} {word : Word} {outcome : Outcome}
      (evaluated : test.Yields routines environment before word tested) (fails : word ≠ Word.truth)
      (run : Alternative.Runs alternative tested outcome) :
      Statement.Runs (.choice test body alternative) before outcome
  | left {test : Expression} {body : Statements} {before tested : Memory} {word : Word}
      (evaluated : test.Yields routines environment before word tested)
      (fails : word ≠ Word.truth) :
      Statement.Runs (.loop test body) before (.normal tested)
  | repeated {test : Expression} {body : Statements} {before tested again : Memory}
      {outcome : Outcome} (holds : test.Yields routines environment before Word.truth tested)
      (round : Statements.Runs body tested (.normal again))
      (rest : Statement.Runs (.loop test body) again outcome) :
      Statement.Runs (.loop test body) before outcome
  | broken {test : Expression} {body : Statements} {before tested after : Memory} {word : Word}
      (holds : test.Yields routines environment before Word.truth tested)
      (round : Statements.Runs body tested (.returned word after)) :
      Statement.Runs (.loop test body) before (.returned word after)
  | perform {call : Call} {before : Memory} :
      Statement.Runs (.perform call) before (.normal ⟨before.frame,
        (call.eval routines environment before.frame before.globals).2⟩)
  | returnZero {before : Memory} : Statement.Runs (.return none) before (.returned 0 before)
  | returnValue {value : Expression} {before after : Memory} {word : Word}
      (evaluated : value.Yields routines environment before word after) :
      Statement.Runs (.return (some value)) before (.returned word after)

/-- Statements after one that returns do not run. -/
inductive Statements.Runs : Statements → Memory → Outcome → Prop
  | nil {before : Memory} : Statements.Runs .nil before (.normal before)
  | next {first : Statement} {others : Statements} {before middle : Memory} {outcome : Outcome}
      (run : Statement.Runs first before (.normal middle))
      (rest : Statements.Runs others middle outcome) :
      Statements.Runs (.cons first others) before outcome
  | stop {first : Statement} {others : Statements} {before after : Memory} {word : Word}
      (run : Statement.Runs first before (.returned word after)) :
      Statements.Runs (.cons first others) before (.returned word after)

/-- A run of an alternative: nothing where it is absent. -/
inductive Alternative.Runs : Alternative → Memory → Outcome → Prop
  | absent {before : Memory} : Alternative.Runs .absent before (.normal before)
  | present {body : Statements} {before : Memory} {outcome : Outcome}
      (run : Statements.Runs body before outcome) :
      Alternative.Runs (.present body) before outcome

end

end Statements

end Grammar

end JackCompiler
