import JackCompiler.Compilation.Class
import JackCompiler.Proofs.Grammar.Tree
import JackCompiler.Proofs.Scoping.Declaration

/-!
# Code of syntax trees

A compiler in two phases: the tree is there before any code is, and code is a function of the tree.
The code of a construct is put together from the code of its parts and says nothing about tokens,
the order in which names were declared, or what was emitted before. Labels are drawn by number: the
labels of a part start where those of the construct and the parts before it end.

A tree makes demands that are no matter of grammar: names have to stand for variables, and what is
counted has to fit in a word. The code of a tree whose demands are not met means nothing.
-/

namespace JackCompiler

/-- What names stand for inside a subroutine. -/
structure Environment where
  /-- The class whose subroutine it is. -/
  className : String
  place? : String → Option Variable

namespace Environment

/-- Pushes the variable that a name stands for. -/
def load (environment : Environment) (name : String) : List Instruction :=
  match environment.place? name with
  | some place => [.push place.segment place.index]
  | none => []

/-- Pops into the variable that a name stands for. -/
def store (environment : Environment) (name : String) : List Instruction :=
  match environment.place? name with
  | some place => [.pop place.segment place.index]
  | none => []

/-- The environment that declarations make up, the latest first. -/
def ofDeclarations (className : String) (ofClass : List (Declaration ClassStorage))
    (ofSubroutine : List (Declaration SubroutineStorage)) : Environment where
  className := className
  place? name :=
    match Declaration.symbol? ofSubroutine name with
    | some symbol => some symbol.toVariable
    | none => (Declaration.symbol? ofClass name).map Symbol.toVariable

end Environment

namespace Grammar

/-! ## Demands -/

/-- What a tree asks for beyond its grammar. -/
inductive Demand
  /-- The name of a variable that is read or assigned stands for one. -/
  | visible (name : String)
  /-- A call passes no more words than can be counted. -/
  | countable (words : Nat)

/-- The largest number that a count in an instruction can have. -/
def maxCount : Nat := 65535

/-- A number that can be counted is not changed by becoming a word. -/
theorem toNat_count {count : Nat} (countable : count ≤ maxCount) :
    (UInt16.ofNat count).toNat = count := by
  refine UInt16.toNat_ofNat_of_lt' ?_
  simp only [maxCount, UInt16.size] at *
  omega

/-- Whether an environment meets a demand. -/
def Demand.Met (environment : Environment) : Demand → Prop
  | visible name => (environment.place? name).isSome
  | countable words => words ≤ maxCount

instance (environment : Environment) (demand : Demand) : Decidable (demand.Met environment) :=
  match demand with
  | .visible name => inferInstanceAs (Decidable ((environment.place? name).isSome = true))
  | .countable words => inferInstanceAs (Decidable (words ≤ maxCount))

mutual

/-- What an expression demands, term by term. -/
def Expression.demands (environment : Environment) : Expression → List Demand
  | .mk first others => first.demands environment ++ others.demands environment

/-- What operands demand. -/
def Operands.demands (environment : Environment) : Operands → List Demand
  | .nil => []
  | .cons _ operand others => operand.demands environment ++ others.demands environment

/-- What a term demands: names, arrays and the receiver of a call are to be visible. -/
def Term.demands (environment : Environment) : Term → List Demand
  | .integer _ | .string _ | .constant _ => []
  | .name text => [.visible text]
  | .element array index => .visible array :: index.demands environment
  | .call call => call.demands environment
  | .group inner => inner.demands environment
  | .unary _ operand => operand.demands environment

/-- A method call also passes the object. -/
def Call.demands (environment : Environment) : Call → List Demand
  | .own _ arguments => arguments.demands environment ++ [.countable (arguments.count + 1)]
  | .qualified owner _ arguments =>
      arguments.demands environment ++
        [.countable (arguments.count + if (environment.place? owner).isSome then 1 else 0)]

/-- What arguments demand. -/
def Arguments.demands (environment : Environment) : Arguments → List Demand
  | .nil => []
  | .cons first others => first.demands environment ++ others.demands environment

end

mutual

/-- What a statement demands, in the order of its parts. -/
def Statement.demands (environment : Environment) : Statement → List Demand
  | .assign target value => .visible target :: value.demands environment
  | .assignElement array index value =>
      .visible array :: index.demands environment ++ value.demands environment
  | .choice test body alternative =>
      test.demands environment ++ body.demands environment ++ alternative.demands environment
  | .loop test body => test.demands environment ++ body.demands environment
  | .perform call => call.demands environment
  | .return none => []
  | .return (some value) => value.demands environment

/-- What statements demand. -/
def Statements.demands (environment : Environment) : Statements → List Demand
  | .nil => []
  | .cons first others => first.demands environment ++ others.demands environment

/-- What an alternative demands. -/
def Alternative.demands (environment : Environment) : Alternative → List Demand
  | .absent => []
  | .present body => body.demands environment

end

/-! ## Expressions -/

/-- Builds a string at run time, one character code after another. -/
def stringCode (contents : String) : List Instruction :=
  .push .constant (UInt16.ofNat contents.utf8ByteSize) :: .call Library.newString 1 ::
    (contents.toList.flatMap String.utf8EncodeChar).flatMap Code.appendCharacter

/-- The instructions at the leaves of the code of a tree, line by line. Operators are one command
each, but for two that are calls; a string is made for a number of characters, which are appended by
their codes. -/
theorem leaves_documented :
    (∀ operator : BinaryOperator, operator.instruction.text =
      match operator with
      | .add => "add"
      | .sub => "sub"
      | .mul => "call Math.multiply 2"
      | .div => "call Math.divide 2"
      | .and => "and"
      | .or => "or"
      | .lt => "lt"
      | .gt => "gt"
      | .eq => "eq") ∧
    (∀ operator : UnaryOperator, operator.instruction.text =
      match operator with
      | .neg => "neg"
      | .not => "not") ∧
    (∀ value : KeywordConstant, value.instructions.map Instruction.text =
      match value with
      | .true => ["push constant 1", "neg"]
      | .false => ["push constant 0"]
      | .null => ["push constant 0"]
      | .this => ["push pointer 0"]) ∧
    ∀ contents : String, contents.utf8ByteSize ≤ 65535 →
      (stringCode contents).map Instruction.text =
        ("push constant " ++ Text.decimal contents.utf8ByteSize) :: "call String.new 1" ::
          (contents.toList.flatMap String.utf8EncodeChar).flatMap fun code =>
            ["push constant " ++ Text.decimal code.toNat, "call String.appendChar 2"] := by
  refine ⟨fun operator => ?_, fun operator => ?_, fun value => ?_, fun contents short => ?_⟩
  · cases operator <;> rfl
  · cases operator <;> rfl
  · cases value <;> rfl
  · have size : (UInt16.ofNat contents.utf8ByteSize).toNat = contents.utf8ByteSize :=
      UInt16.toNat_ofNat_of_lt' (Nat.lt_succ_of_le short)
    rw [stringCode, List.map_cons, List.map_cons, List.map_flatMap]
    show ("push constant " ++ Text.decimal (UInt16.ofNat contents.utf8ByteSize).toNat) :: _ = _
    rw [size]
    rfl

mutual

/-- The code of an expression: its first term, and each operand with its operator behind it. -/
def Expression.code (environment : Environment) : Expression → List Instruction
  | .mk first others => first.code environment ++ others.code environment

/-- The code of operands, each followed by the instruction of its operator. -/
def Operands.code (environment : Environment) : Operands → List Instruction
  | .nil => []
  | .cons operator operand others =>
      operand.code environment ++ [operator.instruction] ++ others.code environment

/-- The code of a term, which leaves one word on the stack. -/
def Term.code (environment : Environment) : Term → List Instruction
  | .integer value => [.push .constant value]
  | .string contents => stringCode contents
  | .constant value => value.instructions
  | .name text => environment.load text
  | .element array index =>
      environment.load array ++ index.code environment ++
        [.command .add, .pop .pointer 1, .push .that 0]
  | .call call => call.code environment
  | .group inner => inner.code environment
  | .unary operator operand => operand.code environment ++ [operator.instruction]

/-- The code of a call: the receiver if there is one, the arguments, and the call itself. -/
def Call.code (environment : Environment) : Call → List Instruction
  | .own subroutine arguments =>
      [.push .pointer 0] ++ arguments.code environment ++
        [.call (environment.className ++ "." ++ subroutine) (UInt16.ofNat (arguments.count + 1))]
  | .qualified owner subroutine arguments =>
      match environment.place? owner with
      | some receiver =>
          [.push receiver.segment receiver.index] ++ arguments.code environment ++
            [.call (receiver.type ++ "." ++ subroutine) (UInt16.ofNat (arguments.count + 1))]
      | none =>
          arguments.code environment ++
            [.call (owner ++ "." ++ subroutine) (UInt16.ofNat arguments.count)]

/-- The code of arguments, one behind the other. -/
def Arguments.code (environment : Environment) : Arguments → List Instruction
  | .nil => []
  | .cons first others => first.code environment ++ others.code environment

end

/-! ## Statements -/

mutual

/-- How many labels a statement draws. -/
def Statement.labelCount : Statement → Nat
  | .choice _ body alternative => 2 + body.labelCount + alternative.labelCount
  | .loop _ body => 2 + body.labelCount
  | .assign .. | .assignElement .. | .perform .. | .return .. => 0

/-- How many labels statements draw. -/
def Statements.labelCount : Statements → Nat
  | .nil => 0
  | .cons first others => first.labelCount + others.labelCount

/-- How many labels an alternative draws. -/
def Alternative.labelCount : Alternative → Nat
  | .absent => 0
  | .present body => body.labelCount

end

section Statements

variable (environment : Environment) (label : Nat → Label)

mutual

/-- The code of a statement whose first label has the given number. -/
def Statement.code (number : Nat) : Statement → List Instruction
  | .assign target value => value.code environment ++ environment.store target
  | .assignElement array index value =>
      environment.load array ++ index.code environment ++ [.command .add] ++
        value.code environment ++
        [.pop .temp 0, .pop .pointer 1, .push .temp 0, .pop .that 0]
  | .choice test body alternative =>
      test.code environment ++ [.command .not, .ifGoto (label number)] ++
        body.code (number + 2) ++ [.goto (label (number + 1)), .label (label number)] ++
        alternative.code (number + 2 + body.labelCount) ++ [.label (label (number + 1))]
  | .loop test body =>
      [.label (label number)] ++ test.code environment ++
        [.command .not, .ifGoto (label (number + 1))] ++ body.code (number + 2) ++
        [.goto (label number), .label (label (number + 1))]
  | .perform call => call.code environment ++ [.pop .temp 0]
  | .return none => [.push .constant 0, .return]
  | .return (some value) => value.code environment ++ [.return]

/-- The code of statements, whose labels follow each other. -/
def Statements.code (number : Nat) : Statements → List Instruction
  | .nil => []
  | .cons first others => first.code number ++ others.code (number + first.labelCount)

/-- The code of an alternative: none where it is absent. -/
def Alternative.code (number : Nat) : Alternative → List Instruction
  | .absent => []
  | .present body => body.code number

end

end Statements

/-! ## Classes -/

/-- The declarations of variables of one type. -/
def Variables.declarations {κ : Type} (storage : κ) (group : Variables) :
    List (Declaration κ) :=
  group.names.map fun name => ⟨name, group.type.text, storage⟩

/-- Variables of one storage are declared with it. -/
theorem storage_of_declarations {κ : Type} {storage : κ} {groups : List Variables} :
    ∀ declaration ∈ groups.flatMap (Variables.declarations storage),
      declaration.storage = storage := by
  intro declaration member
  obtain ⟨group, _, member⟩ := List.mem_flatMap.1 member
  obtain ⟨_, _, rfl⟩ := List.mem_map.1 member
  rfl

/-- The variables of a class in the order of their declarations. -/
def ClassDeclaration.declarations (declaration : ClassDeclaration) :
    List (Declaration ClassStorage) :=
  declaration.groups.flatMap fun declared => declared.group.declarations declared.storage

namespace SubroutineKind

/-- The object that a method is called on is its first argument. -/
def receiver (className : String) : SubroutineKind → List (Declaration SubroutineStorage)
  | method => [⟨"this", className, .argument⟩]
  | constructor | function => []

/-- What a subroutine does before its body. -/
def prologue (fieldCount : Nat) : SubroutineKind → List Instruction
  | constructor =>
      [.push .constant (UInt16.ofNat fieldCount), .call Library.allocate 1, .pop .pointer 0]
  | method => [.push .argument 0, .pop .pointer 0]
  | function => []

end SubroutineKind

namespace Subroutine

variable (className : String) (subroutine : Subroutine)

/-- The parameters as declarations. -/
def parameterDeclarations : List (Declaration SubroutineStorage) :=
  subroutine.parameters.map fun parameter => ⟨parameter.name, parameter.type.text, .argument⟩

/-- The local variables as declarations. -/
def localDeclarations : List (Declaration SubroutineStorage) :=
  subroutine.locals.flatMap (Variables.declarations .local)

/-- Parameters are arguments. -/
theorem storage_of_parameterDeclarations :
    ∀ declaration ∈ subroutine.parameterDeclarations, declaration.storage = .argument := by
  intro declaration member
  obtain ⟨_, _, rfl⟩ := List.mem_map.1 member
  rfl

/-- The variables of a subroutine in the order of their declarations. -/
def declarations : List (Declaration SubroutineStorage) :=
  subroutine.kind.receiver className ++ subroutine.parameterDeclarations ++
    subroutine.localDeclarations

/-- Only the local variables of a subroutine are local. -/
theorem count_local : Declaration.count (subroutine.declarations className) .local =
    subroutine.localDeclarations.length := by
  have receiver : Declaration.count (subroutine.kind.receiver className) .local = 0 := by
    cases subroutine.kind <;> rfl
  have parameters : Declaration.count subroutine.parameterDeclarations .local = 0 := by
    refine Declaration.count_eq_zero ?_
    intro declaration member
    rw [subroutine.storage_of_parameterDeclarations declaration member]
    simp
  rw [declarations, Declaration.count_append, Declaration.count_append, receiver, parameters,
    Nat.zero_add]
  exact Declaration.count_eq_length storage_of_declarations

/-- The arguments of a subroutine are its parameters, and of a method the receiver too. -/
theorem count_argument : Declaration.count (subroutine.declarations className) .argument =
    subroutine.parameters.length + if subroutine.kind = .method then 1 else 0 := by
  have receiver : Declaration.count (subroutine.kind.receiver className) .argument =
      if subroutine.kind = .method then 1 else 0 := by
    cases subroutine.kind <;> rfl
  have locals : Declaration.count subroutine.localDeclarations .argument = 0 := by
    refine Declaration.count_eq_zero ?_
    intro declaration member
    rw [storage_of_declarations declaration member]
    simp
  rw [declarations, Declaration.count_append, Declaration.count_append, receiver, locals,
    Declaration.count_eq_length subroutine.storage_of_parameterDeclarations, parameterDeclarations,
    List.length_map]
  omega

/-- What names stand for in the body of a subroutine of a class. -/
def environment (ofClass : List (Declaration ClassStorage)) : Environment :=
  .ofDeclarations className ofClass.reverse (subroutine.declarations className).reverse

end Subroutine

/-- How many labels subroutines draw. -/
def labelCount : List Subroutine → Nat
  | [] => 0
  | first :: others => first.body.labelCount + labelCount others

/-- The last subroutine of several draws its labels behind those of the others. -/
theorem labelCount_concat (subroutines : List Subroutine) (last : Subroutine) :
    labelCount (subroutines ++ [last]) = labelCount subroutines + last.body.labelCount := by
  induction subroutines with
  | nil => simp [labelCount]
  | cons first others inductionHypothesis =>
      rw [List.cons_append, labelCount, inductionHypothesis, labelCount, Nat.add_assoc]

section Classes

variable (className : String) (ofClass : List (Declaration ClassStorage)) (label : Nat → Label)

/-- The code of a subroutine whose first label has the given number. -/
def Subroutine.code (number : Nat) (subroutine : Subroutine) : List Instruction :=
  [.function (className ++ "." ++ subroutine.name)
      (UInt16.ofNat subroutine.localDeclarations.length)] ++
    subroutine.kind.prologue (Declaration.count ofClass .field) ++
    subroutine.body.code (subroutine.environment className ofClass) label number

/-- The code of subroutines in order. -/
def subroutinesCode (number : Nat) : List Subroutine → List Instruction
  | [] => []
  | first :: others =>
      first.code className ofClass label number ++
        subroutinesCode (number + first.body.labelCount) others

/-- The last subroutine draws its labels after all others. -/
theorem subroutinesCode_concat (number : Nat) (subroutines : List Subroutine) (last : Subroutine) :
    subroutinesCode className ofClass label number (subroutines ++ [last]) =
      subroutinesCode className ofClass label number subroutines ++
        last.code className ofClass label (number + labelCount subroutines) := by
  induction subroutines generalizing number with
  | nil => simp [subroutinesCode, labelCount]
  | cons first others inductionHypothesis =>
      rw [List.cons_append, subroutinesCode, inductionHypothesis, subroutinesCode, labelCount,
        List.append_assoc, Nat.add_assoc]

end Classes

/-- The code of a class whose first label has the given number. -/
def ClassDeclaration.code (label : Nat → Label) (number : Nat) (declaration : ClassDeclaration) :
    List Instruction :=
  subroutinesCode declaration.name declaration.declarations label number declaration.subroutines

/-- A subroutine whose names all stand for variables and whose counts all fit in a word. -/
structure Subroutine.Admissible (className : String) (ofClass : List (Declaration ClassStorage))
    (subroutine : Subroutine) : Prop where
  counts : ∀ storage, Declaration.count (subroutine.declarations className) storage ≤ maxCount
  demands : ∀ demand ∈ subroutine.body.demands (subroutine.environment className ofClass),
    demand.Met (subroutine.environment className ofClass)

/-- The number of locals in a head is exact. -/
theorem Subroutine.Admissible.toNat_locals {className : String}
    {ofClass : List (Declaration ClassStorage)} {subroutine : Subroutine}
    (admissible : subroutine.Admissible className ofClass) :
    (UInt16.ofNat subroutine.localDeclarations.length).toNat =
      subroutine.localDeclarations.length := by
  have counted := admissible.counts .local
  rw [subroutine.count_local] at counted
  exact toNat_count counted

/-- A class whose names all stand for variables and whose counts all fit in a word. -/
structure ClassDeclaration.Admissible (declaration : ClassDeclaration) : Prop where
  counts : ∀ storage, Declaration.count declaration.declarations storage ≤ maxCount
  subroutines : ∀ subroutine ∈ declaration.subroutines,
    subroutine.Admissible declaration.name declaration.declarations

end Grammar

end JackCompiler
