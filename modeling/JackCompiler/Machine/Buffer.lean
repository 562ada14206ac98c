import JackCompiler.Machine.Instruction
import JackCompiler.Machine.Operator
import JackCompiler.Text.Lines
import JackCompiler.Text.Quoted

/-!
# Buffers

A buffer takes down instructions as text, a line each, and counts them beside the text. Each
operation has its own format for its lines. The counter is not read off the text: a line that is
emitted adds one to it, and a buffer that is appended adds its own counter, so it counts
instructions also where a name holds a line break. `Buffer.Holds` says which instructions a buffer
has taken down.
-/

namespace JackCompiler

namespace Library

/-- Multiplies two words. -/
def multiply : String := "Math.multiply"

/-- Divides one word by another. -/
def divide : String := "Math.divide"

/-- Finds memory for an object of a given size. -/
def allocate : String := "Memory.alloc"

/-- Makes an empty string for a given number of characters. -/
def newString : String := "String.new"

/-- Appends a character to a string and leaves the string. -/
def appendCharacter : String := "String.appendChar"

/-- The largest number of characters the runtime library can give a string. -/
def maxStringLength : Nat := 65535

end Library

/-- Text of instructions and the number of them. -/
structure Buffer where
  text : String
  count : Nat
  deriving DecidableEq

namespace Buffer

/-- Nothing written yet. -/
def empty : Buffer := ⟨"", 0⟩

instance : Inhabited Buffer := ⟨empty⟩

/-- Writes one line and counts it. -/
def emit (buffer : Buffer) (line : String) : Buffer :=
  ⟨buffer.text ++ line ++ "\n", buffer.count + 1⟩

/-- One buffer after another: the texts are joined and the counters added. -/
def append (first second : Buffer) : Buffer :=
  ⟨first.text ++ second.text, first.count + second.count⟩

/-- Text is appended to text, and the counters are added. -/
instance : Append Buffer := ⟨append⟩

/-- Whether nothing was counted. -/
def isEmpty (buffer : Buffer) : Bool := buffer.count == 0

/-- The lines of the text. There is one for each instruction unless a name holds a line break. -/
def lines (buffer : Buffer) : List String := Text.lines buffer.text

/-- The written form of the lines, each in quotes. -/
def listing (buffer : Buffer) : String := Text.bracketed (buffer.lines.map Text.quotedText)

/-! ## Operations -/

/-- Writes a push. -/
def push (buffer : Buffer) (segment : Segment) (index : UInt16) : Buffer :=
  buffer.emit ("push " ++ segment.name ++ " " ++ Text.decimal index.toNat)

/-- Writes a pop. -/
def pop (buffer : Buffer) (segment : Segment) (index : UInt16) : Buffer :=
  buffer.emit ("pop " ++ segment.name ++ " " ++ Text.decimal index.toNat)

/-- Writes the place of a label. -/
def label (buffer : Buffer) (target : Label) : Buffer := buffer.emit ("label " ++ target.text)

/-- Writes a jump. -/
def goto (buffer : Buffer) (target : Label) : Buffer := buffer.emit ("goto " ++ target.text)

/-- Writes a jump that depends on the word on top of the stack. -/
def ifGoto (buffer : Buffer) (target : Label) : Buffer := buffer.emit ("if-goto " ++ target.text)

/-- Writes a call. -/
def call (buffer : Buffer) (name : String) (arguments : UInt16) : Buffer :=
  buffer.emit ("call " ++ name ++ " " ++ Text.decimal arguments.toNat)

/-- Writes the head of a subroutine. -/
def function (buffer : Buffer) (name : String) (locals : UInt16) : Buffer :=
  buffer.emit ("function " ++ name ++ " " ++ Text.decimal locals.toNat)

/-- Writes the return from a subroutine. -/
def leave (buffer : Buffer) : Buffer := buffer.emit "return"

/-- Writes a binary operator. The machine neither multiplies nor divides, so these two go through
its runtime library. -/
def binary (buffer : Buffer) : BinaryOperator → Buffer
  | .add => buffer.emit "add"
  | .sub => buffer.emit "sub"
  | .mul => buffer.call Library.multiply 2
  | .div => buffer.call Library.divide 2
  | .and => buffer.emit "and"
  | .or => buffer.emit "or"
  | .lt => buffer.emit "lt"
  | .gt => buffer.emit "gt"
  | .eq => buffer.emit "eq"

/-- Writes a unary operator. -/
def unary (buffer : Buffer) : UnaryOperator → Buffer
  | .neg => buffer.emit "neg"
  | .not => buffer.emit "not"

/-- Writes a keyword constant. Truth is the word with all bits set. -/
def constant (buffer : Buffer) : KeywordConstant → Buffer
  | .true => (buffer.push .constant 1).unary .neg
  | .false | .null => buffer.push .constant 0
  | .this => buffer.push .pointer 0

/-- Writes that a character is appended to the string on the stack. -/
def character (buffer : Buffer) (code : UInt8) : Buffer :=
  (buffer.push .constant code.toUInt16).call Library.appendCharacter 2

/-- Writes how a string is built at run time, one character code for every byte of the text.
Nothing can be written for a text that is too long for the runtime library. -/
def string? (buffer : Buffer) (text : String) : Option Buffer :=
  let size := text.utf8ByteSize
  if size ≤ Library.maxStringLength then
    some ((text.toList.flatMap String.utf8EncodeChar).foldl character
      ((buffer.push .constant (UInt16.ofNat size)).call Library.newString 1))
  else
    none

/-- Writes an instruction. -/
def write (buffer : Buffer) : Instruction → Buffer
  | .push segment index => buffer.push segment index
  | .pop segment index => buffer.pop segment index
  | .command operation => buffer.emit operation.name
  | .label target => buffer.label target
  | .goto target => buffer.goto target
  | .ifGoto target => buffer.ifGoto target
  | .call name arguments => buffer.call name arguments
  | .function name locals => buffer.function name locals
  | .return => buffer.leave

/-! ## What a buffer holds -/

/-- Whether a buffer has taken down some instructions: their texts, each with a line feed behind it,
and their number. -/
structure Holds (buffer : Buffer) (instructions : List Instruction) : Prop where
  text : buffer.text = String.join (instructions.map fun instruction => instruction.text ++ "\n")
  count : buffer.count = instructions.length

variable {buffer first second : Buffer} {instructions others : List Instruction}

theorem holds_empty : empty.Holds [] := ⟨rfl, rfl⟩

/-- A buffer is what it holds. -/
theorem Holds.unique (one : first.Holds instructions) (two : second.Holds instructions) :
    first = second := by
  cases first
  cases second
  rw [Buffer.mk.injEq]
  exact ⟨one.text.trans two.text.symm, one.count.trans two.count.symm⟩

/-- The line of an instruction adds that instruction. -/
theorem Holds.emit (holds : buffer.Holds instructions) (instruction : Instruction) :
    (buffer.emit instruction.text).Holds (instructions ++ [instruction]) where
  text := by
    show buffer.text ++ instruction.text ++ "\n" = _
    rw [holds.text, List.map_append, String.join_append, String.append_assoc]
    rfl
  count := by
    show buffer.count + 1 = _
    rw [holds.count, List.length_append]
    rfl

/-- What two buffers hold is joined. -/
theorem Holds.append (one : first.Holds instructions) (two : second.Holds others) :
    (first ++ second).Holds (instructions ++ others) where
  text := by
    show first.text ++ second.text = _
    rw [one.text, two.text, List.map_append, String.join_append]
  count := by
    show first.count + second.count = _
    rw [one.count, two.count, List.length_append]

/-- Each operation writes the text of its instruction. -/
theorem write_eq_emit (buffer : Buffer) (instruction : Instruction) :
    buffer.write instruction = buffer.emit instruction.text := by
  cases instruction <;> rfl

/-- Writing an instruction takes down one more. -/
theorem Holds.write (holds : buffer.Holds instructions) (instruction : Instruction) :
    (buffer.write instruction).Holds (instructions ++ [instruction]) :=
  write_eq_emit buffer instruction ▸ holds.emit instruction

/-- Instructions that are written one by one are held in order. -/
theorem Holds.writeAll (holds : buffer.Holds instructions) (others : List Instruction) :
    (others.foldl Buffer.write buffer).Holds (instructions ++ others) := by
  induction others generalizing buffer instructions with
  | nil => simpa using holds
  | cons instruction others inductionHypothesis =>
      simpa using inductionHypothesis (holds.write instruction)

end Buffer

end JackCompiler
