import JackCompiler.Machine.Code

/-!
# The target machine

A stack machine over 16-bit words. Truth is the word with all bits set, comparisons are of signed
words, and addresses wrap around at the end of the heap. The machine runs the code of one
subroutine; what the subroutines do that it calls is unknown, so it is taken as a parameter. They
may change statics, the heap and `temp`, and leave the rest of the machine as it was.
-/

namespace JackCompiler

/-- The words of the machine. -/
abbrev Word := UInt16

namespace Word

/-- The word with all bits set. -/
def truth : Word := 65535

/-- Truth is all bits, and falsehood none. -/
def ofBool (holds : Bool) : Word := if holds then truth else 0

/-- Words are compared as signed numbers. -/
def less (left right : Word) : Bool := left.toInt16 < right.toInt16

/-- The negation of all bits is zero for truth alone. -/
theorem complement_eq_zero_iff {word : Word} : ~~~word = 0 ↔ word = truth := by
  rw [← UInt16.toNat_inj, ← UInt16.toNat_inj, UInt16.toNat_not]
  have bound := word.toNat_lt
  have isTruth : truth.toNat = 65535 := rfl
  have isZero : (0 : Word).toNat = 0 := rfl
  simp only [UInt16.size] at *
  omega

end Word

/-- What all subroutines of a program share. -/
structure Globals where
  /-- The static variables of the class whose code runs. -/
  statics : UInt16 → Word
  /-- The static variables of other classes, by the name of the class. -/
  foreign : String → UInt16 → Word
  heap : Word → Word

/-- What belongs to one call of a subroutine. -/
structure Frame where
  arguments : UInt16 → Word
  locals : UInt16 → Word
  /-- The address of the current object, which is `pointer 0`. -/
  this : Word

/-- Everything that the variables of a subroutine are kept in. -/
structure Memory where
  frame : Frame
  globals : Globals

/-- The machine inside a call of a subroutine. -/
structure MachineState where
  /-- The operands, the latest first. -/
  stack : List Word
  memory : Memory
  /-- The address that `that` starts from, which is `pointer 1`. -/
  that : Word
  temp : UInt16 → Word

/-- What subroutines do when they are called. -/
structure Routines where
  /-- The word that a call yields and the globals that it leaves, by name and arguments. -/
  result : String → List Word → Globals → Word × Globals
  /-- What a call leaves in `temp`. -/
  scratch : String → List Word → Globals → (UInt16 → Word) → UInt16 → Word

/-- A segment with one word replaced. -/
def overwrite (words : UInt16 → Word) (index : UInt16) (word : Word) : UInt16 → Word :=
  fun sought => if sought = index then word else words sought

namespace Memory

variable (memory : Memory) (index : UInt16) (word : Word)

/-- An argument of the frame is overwritten. -/
def writeArgument : Memory :=
  { memory with frame := { memory.frame with
      arguments := overwrite memory.frame.arguments index word } }

/-- A local variable of the frame is overwritten. -/
def writeLocal : Memory :=
  { memory with frame := { memory.frame with
      locals := overwrite memory.frame.locals index word } }

/-- A static is overwritten. -/
def writeStatic : Memory :=
  { memory with globals := { memory.globals with
      statics := overwrite memory.globals.statics index word } }

/-- A word of the heap is overwritten. -/
def writeHeap : Memory :=
  { memory with globals := { memory.globals with
      heap := overwrite memory.globals.heap index word } }

end Memory

namespace MachineState

variable (state : MachineState)

/-- A word is pushed onto the stack. -/
def push (word : Word) : MachineState := { state with stack := word :: state.stack }

/-- The word at an index of a segment. -/
def load? (segment : Segment) (index : UInt16) : Option Word :=
  match segment with
  | .constant => some index
  | .argument => some (state.memory.frame.arguments index)
  | .local => some (state.memory.frame.locals index)
  | .static => some (state.memory.globals.statics index)
  | .this => some (state.memory.globals.heap (state.memory.frame.this + index))
  | .that => some (state.memory.globals.heap (state.that + index))
  | .pointer =>
      if index = 0 then some state.memory.frame.this
      else if index = 1 then some state.that
      else none
  | .temp => some (state.temp index)

/-- Replaces the word at an index of a segment. -/
def store? (segment : Segment) (index : UInt16) (word : Word) : Option MachineState :=
  let remember (memory : Memory) : Option MachineState := some { state with memory }
  match segment with
  | .constant => none
  | .argument => remember (state.memory.writeArgument index word)
  | .local => remember (state.memory.writeLocal index word)
  | .static => remember (state.memory.writeStatic index word)
  | .this => remember (state.memory.writeHeap (state.memory.frame.this + index) word)
  | .that => remember (state.memory.writeHeap (state.that + index) word)
  | .pointer =>
      if index = 0 then
        remember { state.memory with frame := { state.memory.frame with this := word } }
      else if index = 1 then some { state with that := word }
      else none
  | .temp => some { state with temp := overwrite state.temp index word }

/-- Takes words from the stack, the latest last, and leaves the result of a call. -/
def call? (routines : Routines) (name : String) (count : Nat) : Option MachineState :=
  if count ≤ state.stack.length then
    let arguments := (state.stack.take count).reverse
    let (word, globals) := routines.result name arguments state.memory.globals
    some { state with
      stack := word :: state.stack.drop count
      memory := { state.memory with globals }
      temp := routines.scratch name arguments state.memory.globals state.temp }
  else
    none

end MachineState

namespace StackCommand

/-- What a command makes of the stack. -/
def result? : StackCommand → List Word → Option (List Word)
  | add, right :: left :: rest => some ((left + right) :: rest)
  | sub, right :: left :: rest => some ((left - right) :: rest)
  | and, right :: left :: rest => some ((left &&& right) :: rest)
  | or, right :: left :: rest => some ((left ||| right) :: rest)
  | eq, right :: left :: rest => some (Word.ofBool (left = right) :: rest)
  | lt, right :: left :: rest => some (Word.ofBool (Word.less left right) :: rest)
  | gt, right :: left :: rest => some (Word.ofBool (Word.less right left) :: rest)
  | neg, word :: rest => some (-word :: rest)
  | not, word :: rest => some (~~~word :: rest)
  | _, _ => none

end StackCommand

namespace Instruction

/-- What an instruction does that goes on to the next one. Jumps, returns and the heads of
subroutines do not. -/
def effect? (routines : Routines) (state : MachineState) : Instruction → Option MachineState
  | .push segment index => (state.load? segment index).map state.push
  | .pop segment index =>
      match state.stack with
      | word :: rest => MachineState.store? { state with stack := rest } segment index word
      | [] => none
  | .command operation =>
      (operation.result? state.stack).map fun stack => { state with stack }
  | .call name arguments => state.call? routines name arguments.toNat
  | .label _ => some state
  | .goto _ | .ifGoto _ | .function _ _ | .return => none

end Instruction

/-- Does instructions one after another. -/
def perform? (routines : Routines) : List Instruction → MachineState → Option MachineState
  | [], state => some state
  | first :: others, state => (first.effect? routines state).bind (perform? routines others)

/-- Code is done part by part. -/
theorem perform?_append (routines : Routines) (first second : List Instruction)
    (state : MachineState) :
    perform? routines (first ++ second) state =
      (perform? routines first state).bind (perform? routines second) := by
  induction first generalizing state with
  | nil => rfl
  | cons instruction others inductionHypothesis =>
      rw [List.cons_append, perform?, perform?, Option.bind_assoc]
      congr 1
      funext next
      exact inductionHypothesis next

end JackCompiler
