import JackCompiler.Label
import JackCompiler.Machine.Segment

/-!
# Instructions

The instructions of the target machine and their text, one line each.
-/

namespace JackCompiler

/-- A command that works on the operand stack alone. -/
inductive StackCommand
  | add | sub | neg | eq | gt | lt | and | or | not
  deriving DecidableEq

namespace StackCommand

/-- The command in instructions. -/
def name : StackCommand → String
  | add => "add"
  | sub => "sub"
  | neg => "neg"
  | eq => "eq"
  | gt => "gt"
  | lt => "lt"
  | and => "and"
  | or => "or"
  | not => "not"

end StackCommand

/-- An instruction of the target machine. -/
inductive Instruction
  | push (segment : Segment) (index : UInt16)
  | pop (segment : Segment) (index : UInt16)
  | command (operation : StackCommand)
  | label (target : Label)
  | goto (target : Label)
  /-- Pops a word and jumps unless it is zero. -/
  | ifGoto (target : Label)
  | call (name : String) (arguments : UInt16)
  | function (name : String) (locals : UInt16)
  | return
  deriving DecidableEq

namespace Instruction

private def withOperand (head : String) (operand : UInt16) : String :=
  head ++ " " ++ Text.decimal operand.toNat

/-- The text of an instruction, without a line break of its own. -/
def text : Instruction → String
  | .push segment index => withOperand ("push " ++ segment.name) index
  | .pop segment index => withOperand ("pop " ++ segment.name) index
  | .command operation => operation.name
  | .label target => "label " ++ target.text
  | .goto target => "goto " ++ target.text
  | .ifGoto target => "if-goto " ++ target.text
  | .call name arguments => withOperand ("call " ++ name) arguments
  | .function name locals => withOperand ("function " ++ name) locals
  | .return => "return"

end Instruction

end JackCompiler
