import JackCompiler.Proofs.Generation.Generate

/-!
# What code consists of

The instructions that the code of expressions and of statements is made of. Every place in which an
instruction is emitted appears once in the two relations here, so a property that each instruction
has on its own is proved by one case for each of these places.

A variable is accessed under a name of the tree that is compiled. Names that no source can have are
kept out by a condition on the names of the tree.
-/

namespace JackCompiler

open Grammar

/-- Every instruction of some code satisfies a condition. -/
def Consists (Holds : Instruction → Prop) (code : List Instruction) : Prop :=
  ∀ instruction ∈ code, Holds instruction

namespace Consists

variable {Holds : Instruction → Prop} {first second : List Instruction}
  {instruction : Instruction}

theorem nil : Consists Holds [] := List.forall_mem_nil _

/-- An instruction that has the property goes in front of code that consists of such instructions.
-/
theorem cons (holds : Holds instruction) (others : Consists Holds second) :
    Consists Holds (instruction :: second) :=
  List.forall_mem_cons.2 ⟨holds, others⟩

theorem single (holds : Holds instruction) : Consists Holds [instruction] := cons holds nil

/-- Code that consists of such instructions goes on with more of it. -/
theorem append (one : Consists Holds first) (two : Consists Holds second) :
    Consists Holds (first ++ second) :=
  List.forall_mem_append.2 ⟨one, two⟩

end Consists

/-- The instructions in the code of expressions whose names satisfy a condition. -/
inductive ExpressionInstruction (environment : Environment) (Allowed : String → Prop) :
    Instruction → Prop
  | load {name : String} {place : Variable} (allowed : Allowed name)
      (found : environment.place? name = some place) :
      ExpressionInstruction environment Allowed (.push place.segment place.index)
  | constant (word : UInt16) : ExpressionInstruction environment Allowed (.push .constant word)
  | this : ExpressionInstruction environment Allowed (.push .pointer 0)
  | address : ExpressionInstruction environment Allowed (.pop .pointer 1)
  | element : ExpressionInstruction environment Allowed (.push .that 0)
  | command (operation : StackCommand) :
      ExpressionInstruction environment Allowed (.command operation)
  | call (name : String) (count : UInt16) :
      ExpressionInstruction environment Allowed (.call name count)

/-- The instructions in the code of statements whose names satisfy a condition. -/
inductive StatementInstruction (environment : Environment) (Allowed : String → Prop) :
    Instruction → Prop
  | expression {instruction : Instruction}
      (within : ExpressionInstruction environment Allowed instruction) :
      StatementInstruction environment Allowed instruction
  | store {name : String} {place : Variable} (allowed : Allowed name)
      (found : environment.place? name = some place) :
      StatementInstruction environment Allowed (.pop place.segment place.index)
  | keep : StatementInstruction environment Allowed (.pop .temp 0)
  | restore : StatementInstruction environment Allowed (.push .temp 0)
  | storeElement : StatementInstruction environment Allowed (.pop .that 0)
  | label (label : Label) : StatementInstruction environment Allowed (.label label)
  | goto (label : Label) : StatementInstruction environment Allowed (.goto label)
  | ifGoto (label : Label) : StatementInstruction environment Allowed (.ifGoto label)
  | return : StatementInstruction environment Allowed .return

/-- What can be in an expression can be in a statement. -/
theorem Consists.inStatement {environment : Environment} {Allowed : String → Prop}
    {code : List Instruction}
    (within : Consists (ExpressionInstruction environment Allowed) code) :
    Consists (StatementInstruction environment Allowed) code :=
  fun instruction member => .expression (within instruction member)

namespace Grammar

/-- Every name in a sequence of terminals satisfies a condition. -/
def NamesIn (Allowed : String → Prop) (terminals : List Terminal) : Prop :=
  ∀ text, .name text ∈ terminals → Allowed text

namespace NamesIn

variable {Allowed : String → Prop} {first second : List Terminal}

/-- The names of two stretches of terminals are those of the first one. -/
theorem left (names : NamesIn Allowed (first ++ second)) : NamesIn Allowed first :=
  fun text member => names text (List.mem_append_left second member)

/-- The names of two stretches of terminals are those of the second one. -/
theorem right (names : NamesIn Allowed (first ++ second)) : NamesIn Allowed second :=
  fun text member => names text (List.mem_append_right first member)

/-- The names behind a terminal are among those with it. -/
theorem tail {terminal : Terminal} (names : NamesIn Allowed (terminal :: second)) :
    NamesIn Allowed second :=
  fun text member => names text (List.mem_cons_of_mem terminal member)

/-- A name is allowed in front of others if all are. -/
theorem head {text : String} (names : NamesIn Allowed (.name text :: second)) : Allowed text :=
  names text List.mem_cons_self

/-- What holds of the names in several parts holds of those in each. -/
theorem flatMap {α : Type} {yield : α → List Terminal} {parts : List α}
    (names : NamesIn Allowed (parts.flatMap yield)) {part : α} (member : part ∈ parts) :
    NamesIn Allowed (yield part) :=
  fun text inside => names text (List.mem_flatMap.2 ⟨part, member, inside⟩)

/-- The name of a class is one of its names. -/
theorem className {tree : ClassDeclaration} (names : NamesIn Allowed tree.yield) :
    Allowed tree.name :=
  names.left.left.left.tail.head

/-- The name of a subroutine is one of its names. -/
theorem subroutineName {subroutine : Subroutine} (names : NamesIn Allowed subroutine.yield) :
    Allowed subroutine.name :=
  names.left.left.left.left.left.tail.tail.head

/-- The names in a subroutine are names in its class. -/
theorem subroutine {tree : ClassDeclaration} (names : NamesIn Allowed tree.yield)
    {subroutine : Subroutine} (member : subroutine ∈ tree.subroutines) :
    NamesIn Allowed subroutine.yield :=
  names.left.right.flatMap member

/-- The names in the body of a subroutine are names of the class. -/
theorem body {tree : ClassDeclaration} (names : NamesIn Allowed tree.yield)
    {subroutine : Subroutine} (member : subroutine ∈ tree.subroutines) :
    NamesIn Allowed subroutine.body.yield :=
  (names.subroutine member).left.right

end NamesIn

section Expressions

variable (environment : Environment) {Allowed : String → Prop}

/-- A variable is loaded by an instruction of expressions. -/
theorem consists_load {name : String} (allowed : Allowed name) :
    Consists (ExpressionInstruction environment Allowed) (environment.load name) := by
  unfold Environment.load
  cases found : environment.place? name with
  | some place => exact .single (.load allowed found)
  | none => exact .nil

/-- A string constant is made and filled by instructions of expressions. -/
theorem consists_string (contents : String) :
    Consists (ExpressionInstruction environment Allowed) (stringCode contents) := by
  refine .cons (.constant _) (.cons (.call _ _) ?_)
  intro instruction member
  obtain ⟨character, _, appended⟩ := List.mem_flatMap.1 member
  have parts : Consists (ExpressionInstruction environment Allowed)
      (Code.appendCharacter character) := .cons (.constant _) (.single (.call _ _))
  exact parts instruction appended

/-- The instruction of a binary operator is one of expressions. -/
theorem instruction_binary (operator : BinaryOperator) :
    ExpressionInstruction environment Allowed operator.instruction := by
  cases operator with
  | mul | div => exact .call _ _
  | _ => exact .command _

/-- The instruction of a unary operator is one of expressions. -/
theorem instruction_unary (operator : UnaryOperator) :
    ExpressionInstruction environment Allowed operator.instruction := by
  cases operator <;> exact .command _

/-- The instructions of a constant are instructions of expressions. -/
theorem consists_constant (value : KeywordConstant) :
    Consists (ExpressionInstruction environment Allowed) value.instructions := by
  cases value with
  | true => exact .cons (.constant _) (.single (.command _))
  | false | null => exact .single (.constant _)
  | this => exact .single .this

mutual

/-- The code of an expression consists of the instructions of expressions. -/
theorem Expression.consists (tree : Expression) (names : NamesIn Allowed tree.yield) :
    Consists (ExpressionInstruction environment Allowed) (tree.code environment) := by
  cases tree with
  | mk first others => exact (first.consists names.left).append (others.consists names.right)

/-- The code of operands consists of the instructions of expressions. -/
theorem Operands.consists (tree : Operands) (names : NamesIn Allowed tree.yield) :
    Consists (ExpressionInstruction environment Allowed) (tree.code environment) := by
  cases tree with
  | nil => exact .nil
  | cons operator operand others =>
      have joined := (operand.consists names.left.tail).append
        (.single (instruction_binary environment operator))
      exact joined.append (others.consists names.right)

/-- The code of a term consists of the instructions of expressions. -/
theorem Term.consists (tree : Term) (names : NamesIn Allowed tree.yield) :
    Consists (ExpressionInstruction environment Allowed) (tree.code environment) := by
  cases tree with
  | integer value => exact .single (.constant value)
  | string contents => exact consists_string environment contents
  | constant value => exact consists_constant environment value
  | name text => exact consists_load environment names.head
  | element array index =>
      have address := (consists_load environment names.left.left.head).append
        (index.consists names.left.right)
      exact address.append (.cons (.command _) (.cons .address (.single .element)))
  | call call => exact call.consists names
  | group inner => exact inner.consists names.left.right
  | unary operator operand =>
      exact (operand.consists names.tail).append (.single (instruction_unary environment operator))

/-- The code of a call consists of the instructions of expressions. -/
theorem Call.consists (tree : Call) (names : NamesIn Allowed tree.yield) :
    Consists (ExpressionInstruction environment Allowed) (tree.code environment) := by
  cases tree with
  | own subroutine arguments =>
      exact (Consists.cons .this (arguments.consists names.left.right)).append
        (.single (.call _ _))
  | qualified owner subroutine arguments =>
      have passed := arguments.consists names.left.right
      rw [Call.code]
      cases found : environment.place? owner with
      | some receiver =>
          exact (Consists.cons (.load names.left.left.head found) passed).append
            (.single (.call _ _))
      | none => exact passed.append (.single (.call _ _))

/-- The code of arguments consists of the instructions of expressions. -/
theorem Arguments.consists (tree : Arguments) (names : NamesIn Allowed tree.yield) :
    Consists (ExpressionInstruction environment Allowed) (tree.code environment) := by
  cases tree with
  | nil => exact .nil
  | cons first others =>
      exact (first.consists names.left).append (others.consists_following names.right)

/-- The code of arguments behind others consists of the instructions of expressions. -/
theorem Arguments.consists_following (tree : Arguments)
    (names : NamesIn Allowed tree.following) :
    Consists (ExpressionInstruction environment Allowed) (tree.code environment) := by
  cases tree with
  | nil => exact .nil
  | cons first others =>
      exact (first.consists names.left.tail).append (others.consists_following names.right)

end

end Expressions

section Statements

variable (environment : Environment) {Allowed : String → Prop} {label : Nat → Label}

/-- A variable is stored to by an instruction of statements. -/
theorem consists_store {name : String} (allowed : Allowed name) :
    Consists (StatementInstruction environment Allowed) (environment.store name) := by
  unfold Environment.store
  cases found : environment.place? name with
  | some place => exact .single (.store allowed found)
  | none => exact .nil

mutual

/-- The code of a statement consists of the instructions of statements. -/
theorem Statement.consists (tree : Statement) (names : NamesIn Allowed tree.yield)
    (number : Nat) :
    Consists (StatementInstruction environment Allowed) (tree.code environment label number) := by
  cases tree with
  | assign target value =>
      have computed := (value.consists environment names.left.right).inStatement
      exact computed.append (consists_store environment names.left.left.tail.head)
  | assignElement array index value =>
      have array := consists_load environment names.left.left.left.left.tail.head
      have address := array.append (index.consists environment names.left.left.left.right)
      have computed := (address.append (.single (.command .add))).append
        (value.consists environment names.left.right)
      exact computed.inStatement.append
        (.cons .keep (.cons (.expression .address) (.cons .restore (.single .storeElement))))
  | choice test body alternative =>
      have condition := (test.consists environment names.left.left.left.left.right).inStatement
      have tested := condition.append (.cons (.expression (.command .not))
        (.single (.ifGoto (label number))))
      have chosen := (tested.append (body.consists names.left.left.right (number + 2))).append
        (.cons (.goto (label (number + 1))) (.single (.label (label number))))
      exact (chosen.append (alternative.consists names.right _)).append (.single (.label _))
  | loop test body =>
      have condition := (test.consists environment names.left.left.left.right).inStatement
      have tested := (condition.cons (.label (label number))).append
        (.cons (.expression (.command .not)) (.single (.ifGoto (label (number + 1)))))
      exact (tested.append (body.consists names.left.right (number + 2))).append
        (.cons (.goto _) (.single (.label _)))
  | perform call =>
      have called := (call.consists environment names.left.right).inStatement
      exact called.append (.single .keep)
  | «return» value =>
      cases value with
      | none => exact .cons (.expression (.constant 0)) (.single .return)
      | some value =>
          have computed := (value.consists environment names.left.right).inStatement
          exact computed.append (.single .return)

/-- The code of statements consists of the instructions of statements. -/
theorem Statements.consists (tree : Statements) (names : NamesIn Allowed tree.yield)
    (number : Nat) :
    Consists (StatementInstruction environment Allowed) (tree.code environment label number) := by
  cases tree with
  | nil => exact .nil
  | cons first others =>
      exact (first.consists names.left number).append (others.consists names.right _)

/-- The code of an alternative consists of the instructions of statements. -/
theorem Alternative.consists (tree : Alternative) (names : NamesIn Allowed tree.yield)
    (number : Nat) :
    Consists (StatementInstruction environment Allowed) (tree.code environment label number) := by
  cases tree with
  | absent => exact .nil
  | present body => exact body.consists names.left.right number

end

end Statements

end Grammar

end JackCompiler
