import JackCompiler.Machine.Buffer

/-!
# Code

Code is a sequence of instructions, together with the buffer that they were written into. This
module also holds the instruction sequences that operators, keyword constants and string constants
stand for. The machine neither multiplies nor divides and has no strings, so these go through its
runtime library.
-/

namespace JackCompiler

namespace BinaryOperator

/-- The instruction that takes two words from the stack and leaves the result. -/
def instruction : BinaryOperator → Instruction
  | add => .command .add
  | sub => .command .sub
  | mul => .call Library.multiply 2
  | div => .call Library.divide 2
  | and => .command .and
  | or => .command .or
  | lt => .command .lt
  | gt => .command .gt
  | eq => .command .eq

end BinaryOperator

namespace UnaryOperator

/-- The instruction that takes a word from the stack and leaves the result. -/
def instruction : UnaryOperator → Instruction
  | neg => .command .neg
  | not => .command .not

end UnaryOperator

namespace KeywordConstant

/-- The instructions that push the value of the constant. Truth is the word with all bits set. -/
def instructions : KeywordConstant → List Instruction
  | true => [.push .constant 1, .command .neg]
  | false => [.push .constant 0]
  | null => [.push .constant 0]
  | this => [.push .pointer 0]

end KeywordConstant

namespace Code

/-- The instructions that append one character code to the string on the stack. -/
def appendCharacter (character : UInt8) : List Instruction :=
  [.push .constant character.toUInt16, .call Library.appendCharacter 2]

/-- The instructions that build a string at run time, one character code for every byte of it. -/
def stringInstructions (text : String) : List Instruction :=
  .push .constant (UInt16.ofNat text.utf8ByteSize) :: .call Library.newString 1 ::
    (text.toList.flatMap String.utf8EncodeChar).flatMap appendCharacter

end Code

namespace Buffer

/-- What is written for a binary operator is its instruction. -/
theorem binary_eq_write (buffer : Buffer) (operator : BinaryOperator) :
    buffer.binary operator = buffer.write operator.instruction := by
  cases operator <;> rfl

/-- What is written for a unary operator is its instruction. -/
theorem unary_eq_write (buffer : Buffer) (operator : UnaryOperator) :
    buffer.unary operator = buffer.write operator.instruction := by
  cases operator <;> rfl

/-- What is written for a keyword constant is its instructions. -/
theorem constant_eq_write (buffer : Buffer) (value : KeywordConstant) :
    buffer.constant value = value.instructions.foldl write buffer := by
  cases value <;> rfl

/-- What is written for a string are the instructions that build it. -/
theorem string?_eq_write (buffer : Buffer) (text : String) :
    buffer.string? text =
      if text.utf8ByteSize ≤ Library.maxStringLength then
        some ((Code.stringInstructions text).foldl write buffer)
      else none := by
  have characters (buffer : Buffer) (codes : List UInt8) :
      codes.foldl character buffer = (codes.flatMap Code.appendCharacter).foldl write buffer := by
    rw [List.foldl_flatMap]
    rfl
  rw [string?, characters]
  rfl

end Buffer

/-- A sequence of instructions and the buffer that holds them. -/
structure Code where
  instructions : Array Instruction
  buffer : Buffer
  holds : buffer.Holds instructions.toList

namespace Code

/-- The instructions as a list. -/
def toList (code : Code) : List Instruction := code.instructions.toList

/-- The instructions determine what was written. -/
theorem toList_injective {left right : Code} (same : left.toList = right.toList) :
    left = right := by
  obtain ⟨instructions, buffer, holds⟩ := left
  obtain ⟨instructions', buffer', holds'⟩ := right
  obtain rfl : instructions = instructions' := Array.toList_inj.1 same
  obtain rfl : buffer = buffer' := holds.unique holds'
  rfl

/-- Code is told apart by its instructions. -/
instance : DecidableEq Code := fun left right =>
  decidable_of_iff (left.instructions = right.instructions)
    ⟨fun same => toList_injective (congrArg Array.toList same), congrArg instructions⟩

/-- No instructions. -/
def empty : Code := ⟨#[], .empty, Buffer.holds_empty⟩

instance : Inhabited Code := ⟨empty⟩

/-- The code of a list of instructions, which are written one after another. -/
def ofList (instructions : List Instruction) : Code where
  instructions := instructions.toArray
  buffer := instructions.foldl Buffer.write .empty
  holds := by simpa using Buffer.holds_empty.writeAll instructions

/-- One more instruction at the end. -/
def push (code : Code) (instruction : Instruction) : Code where
  instructions := code.instructions.push instruction
  buffer := code.buffer.write instruction
  holds := by simpa using code.holds.write instruction

/-- One code after another. -/
def append (first second : Code) : Code where
  instructions := first.instructions ++ second.instructions
  buffer := first.buffer ++ second.buffer
  holds := by simpa using first.holds.append second.holds

/-- Code appended to code has the instructions of both, and so has the buffer. -/
instance : Append Code := ⟨append⟩

/-- A binary operator at the end. -/
def binary (code : Code) (operator : BinaryOperator) : Code where
  instructions := code.instructions.push operator.instruction
  buffer := code.buffer.binary operator
  holds := by
    rw [Buffer.binary_eq_write]
    simpa using code.holds.write operator.instruction

/-- A unary operator at the end. -/
def unary (code : Code) (operator : UnaryOperator) : Code where
  instructions := code.instructions.push operator.instruction
  buffer := code.buffer.unary operator
  holds := by
    rw [Buffer.unary_eq_write]
    simpa using code.holds.write operator.instruction

/-- The code of a keyword constant. -/
def constant (value : KeywordConstant) : Code where
  instructions := value.instructions.toArray
  buffer := Buffer.empty.constant value
  holds := by
    rw [Buffer.constant_eq_write]
    simpa using Buffer.holds_empty.writeAll value.instructions

/-- The code that builds a string. There is none for a text that is too long for the runtime
library. -/
def stringConstant? (text : String) : Option Code :=
  (Buffer.empty.string? text).pmap
    (fun buffer holds => ⟨(stringInstructions text).toArray, buffer, holds⟩)
    fun buffer written => by
      rw [Buffer.string?_eq_write, Option.ite_none_right_eq_some, Option.some.injEq] at written
      rw [← written.2]
      simpa using Buffer.holds_empty.writeAll (stringInstructions text)

/-- How many instructions were counted. -/
def count (code : Code) : Nat := code.buffer.count

/-- Whether no instruction was counted. -/
def isEmpty (code : Code) : Bool := code.buffer.isEmpty

/-- The text, with a line feed after every instruction. -/
def text (code : Code) : String := code.buffer.text

/-- The lines of the text. -/
def lines (code : Code) : List String := code.buffer.lines

/-- The written form of the lines, each in quotes. -/
def listing (code : Code) : String := code.buffer.listing

/-- Whether two codes have the same text and the same number of instructions. -/
def sameText (left right : Code) : Bool := left.buffer == right.buffer

@[simp] theorem toList_empty : empty.toList = [] := rfl

@[simp] theorem toList_ofList (instructions : List Instruction) :
    (ofList instructions).toList = instructions := by
  simp [ofList, toList]

@[simp] theorem toList_push (code : Code) (instruction : Instruction) :
    (code.push instruction).toList = code.toList ++ [instruction] := by
  simp [push, toList]

@[simp] theorem toList_append (first second : Code) :
    (first ++ second).toList = first.toList ++ second.toList := by
  show (first.instructions ++ second.instructions).toList = _
  simp [toList]

/-- A binary operator adds its instruction. -/
@[simp] theorem toList_binary (code : Code) (operator : BinaryOperator) :
    (code.binary operator).toList = code.toList ++ [operator.instruction] := by
  simp [binary, toList]

/-- A unary operator adds its instruction. -/
@[simp] theorem toList_unary (code : Code) (operator : UnaryOperator) :
    (code.unary operator).toList = code.toList ++ [operator.instruction] := by
  simp [unary, toList]

/-- A keyword constant adds its instructions. -/
@[simp] theorem toList_constant (value : KeywordConstant) :
    (constant value).toList = value.instructions := by
  simp [constant, toList]

/-- A string constant has code if it is not too long for the library. -/
theorem stringConstant?_eq (text : String) :
    stringConstant? text =
      if text.utf8ByteSize ≤ Library.maxStringLength then some (ofList (stringInstructions text))
      else none := by
  have written := Buffer.string?_eq_write .empty text
  by_cases fits : text.utf8ByteSize ≤ Library.maxStringLength
  · rw [if_pos fits] at written ⊢
    simp only [stringConstant?, written, Option.pmap_some]
    exact congrArg some (toList_injective (by simp [toList, ofList]))
  · rw [if_neg fits] at written ⊢
    simp only [stringConstant?, written, Option.pmap_none]

end Code

end JackCompiler
