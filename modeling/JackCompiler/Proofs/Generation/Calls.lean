import JackCompiler.Proofs.Generation.Instructions

/-!
# Calls

The calls of a tree in the order in which they are made: each with the full name of the subroutine
and the number of words it is passed. They are counted as numbers, and no word bounds them. If the
demands of a tree are met, they are the calls in its code.
-/

namespace JackCompiler

open Grammar

/-- The subroutine that an instruction calls, and how many words it is passed. -/
def Instruction.call? : Instruction → Option (String × Nat)
  | .call name arguments => some (name, arguments.toNat)
  | _ => none

/-- The calls in some code, in order. -/
def callsIn (code : List Instruction) : List (String × Nat) := code.filterMap Instruction.call?

@[simp] theorem callsIn_nil : callsIn [] = [] := rfl

/-- The calls in code begin with that of its first instruction, if it makes one. -/
theorem callsIn_cons (first : Instruction) (others : List Instruction) :
    callsIn (first :: others) = first.call?.toList ++ callsIn others := by
  unfold callsIn
  cases found : first.call? with
  | none => rw [List.filterMap_cons_none found, Option.toList_none, List.nil_append]
  | some call => rw [List.filterMap_cons_some found, Option.toList_some, List.singleton_append]

@[simp] theorem callsIn_append (first second : List Instruction) :
    callsIn (first ++ second) = callsIn first ++ callsIn second :=
  List.filterMap_append

/-- Loading a variable makes no call. -/
@[simp] theorem callsIn_load (environment : Environment) (name : String) :
    callsIn (environment.load name) = [] := by
  unfold Environment.load
  split <;> rfl

/-- Storing to a variable makes no call. -/
@[simp] theorem callsIn_store (environment : Environment) (name : String) :
    callsIn (environment.store name) = [] := by
  unfold Environment.store
  split <;> rfl

namespace Grammar

/-! ## Calls of a tree -/

/-- The calls that build a string. -/
def stringCalls (contents : String) : List (String × Nat) :=
  (Library.newString, 1) ::
    (contents.toList.flatMap String.utf8EncodeChar).map fun _ => (Library.appendCharacter, 2)

/-- The machine neither multiplies nor divides. -/
def operatorCalls : BinaryOperator → List (String × Nat)
  | .mul => [(Library.multiply, 2)]
  | .div => [(Library.divide, 2)]
  | _ => []

section Trees

variable (environment : Environment)

mutual

/-- The calls of an expression, term by term. -/
def Expression.calls : Expression → List (String × Nat)
  | .mk first others => first.calls ++ others.calls

/-- The calls of operands, each one followed by that of its operator, if it makes one. -/
def Operands.calls : Operands → List (String × Nat)
  | .nil => []
  | .cons operator operand others => operand.calls ++ operatorCalls operator ++ others.calls

/-- The calls of a term: a string constant makes its own, one for each character. -/
def Term.calls : Term → List (String × Nat)
  | .integer _ | .constant _ | .name _ => []
  | .string contents => stringCalls contents
  | .element _ index => index.calls
  | .call call => call.calls
  | .group inner => inner.calls
  | .unary _ operand => operand.calls

/-- A call of a method is passed the object in front of the arguments. -/
def Call.calls : Call → List (String × Nat)
  | .own subroutine arguments =>
      arguments.calls ++ [(environment.className ++ "." ++ subroutine, arguments.count + 1)]
  | .qualified owner subroutine arguments =>
      match environment.place? owner with
      | some receiver =>
          arguments.calls ++ [(receiver.type ++ "." ++ subroutine, arguments.count + 1)]
      | none => arguments.calls ++ [(owner ++ "." ++ subroutine, arguments.count)]

/-- The calls of arguments, one argument behind the other. -/
def Arguments.calls : Arguments → List (String × Nat)
  | .nil => []
  | .cons first others => first.calls ++ others.calls

end

mutual

/-- The calls of a statement, in the order of its parts. -/
def Statement.calls : Statement → List (String × Nat)
  | .assign _ value => value.calls environment
  | .assignElement _ index value => index.calls environment ++ value.calls environment
  | .choice test body alternative => test.calls environment ++ body.calls ++ alternative.calls
  | .loop test body => test.calls environment ++ body.calls
  | .perform call => call.calls environment
  | .return none => []
  | .return (some value) => value.calls environment

/-- The calls of statements. -/
def Statements.calls : Statements → List (String × Nat)
  | .nil => []
  | .cons first others => first.calls ++ others.calls

/-- The calls of an alternative. -/
def Alternative.calls : Alternative → List (String × Nat)
  | .absent => []
  | .present body => body.calls

end

end Trees

/-- A constructor finds memory for the object before anything else is called. -/
def SubroutineKind.calls : SubroutineKind → List (String × Nat)
  | constructor => [(Library.allocate, 1)]
  | function | method => []

/-- The calls of a subroutine in a class. -/
def Subroutine.calls (className : String) (ofClass : List (Declaration ClassStorage))
    (subroutine : Subroutine) : List (String × Nat) :=
  subroutine.kind.calls ++ subroutine.body.calls (subroutine.environment className ofClass)

/-! ## Calls in code -/

/-- The code of a string constant makes a string and appends its characters. -/
@[simp] theorem callsIn_string (contents : String) :
    callsIn (stringCode contents) = stringCalls contents := by
  have appended (characters : List UInt8) : callsIn (characters.flatMap Code.appendCharacter) =
      characters.map fun _ => (Library.appendCharacter, 2) := by
    induction characters with
    | nil => rfl
    | cons first others inductionHypothesis =>
        rw [List.flatMap_cons, callsIn_append, inductionHypothesis]
        rfl
  exact congrArg (List.cons (Library.newString, 1)) (appended _)

/-- Constants make no call. -/
@[simp] theorem callsIn_constant (value : KeywordConstant) : callsIn value.instructions = [] := by
  cases value <;> rfl

/-- Only products and quotients are calls. -/
@[simp] theorem callsIn_binary (operator : BinaryOperator) :
    callsIn [operator.instruction] = operatorCalls operator := by
  cases operator <;> rfl

/-- Unary operators make no call. -/
@[simp] theorem callsIn_unary (operator : UnaryOperator) : callsIn [operator.instruction] = [] := by
  cases operator <;> rfl

/-- The number of words in a call is exact if it can be counted. -/
theorem callsIn_call (name : String) {count : Nat} (countable : count ≤ maxCount) :
    callsIn [.call name (UInt16.ofNat count)] = [(name, count)] :=
  congrArg (fun words => [(name, words)]) (toNat_count countable)

section Met

variable {environment : Environment}

mutual

/-- The calls in the code of an expression are its calls. -/
theorem Expression.callsIn_code (tree : Expression)
    (met : ∀ demand ∈ tree.demands environment, demand.Met environment) :
    callsIn (tree.code environment) = tree.calls environment := by
  cases tree with
  | mk first others =>
      obtain ⟨metFirst, metOthers⟩ := List.forall_mem_append.1 met
      rw [Expression.code, callsIn_append, first.callsIn_code metFirst,
        others.callsIn_code metOthers, Expression.calls]

/-- The calls in the code of operands are their calls. -/
theorem Operands.callsIn_code (tree : Operands)
    (met : ∀ demand ∈ tree.demands environment, demand.Met environment) :
    callsIn (tree.code environment) = tree.calls environment := by
  cases tree with
  | nil => rfl
  | cons operator operand others =>
      obtain ⟨metOperand, metOthers⟩ := List.forall_mem_append.1 met
      rw [Operands.code, callsIn_append, callsIn_append, operand.callsIn_code metOperand,
        callsIn_binary, others.callsIn_code metOthers, Operands.calls]

/-- The calls in the code of a term are its calls. -/
theorem Term.callsIn_code (tree : Term)
    (met : ∀ demand ∈ tree.demands environment, demand.Met environment) :
    callsIn (tree.code environment) = tree.calls environment := by
  cases tree with
  | integer value => rfl
  | string contents => exact callsIn_string contents
  | constant value => exact callsIn_constant value
  | name text => exact callsIn_load environment text
  | element array index =>
      have inside := index.callsIn_code fun demand member => met demand (.tail _ member)
      rw [Term.code, callsIn_append, callsIn_append, callsIn_load, inside]
      exact List.append_nil _
  | call call => exact call.callsIn_code met
  | group inner => exact inner.callsIn_code met
  | unary operator operand =>
      rw [Term.code, callsIn_append, operand.callsIn_code met, callsIn_unary]
      exact List.append_nil _

/-- The calls in the code of a call are those of its arguments and the call itself. -/
theorem Call.callsIn_code (tree : Call)
    (met : ∀ demand ∈ tree.demands environment, demand.Met environment) :
    callsIn (tree.code environment) = tree.calls environment := by
  cases tree with
  | own subroutine arguments =>
      obtain ⟨metArguments, metCall⟩ := List.forall_mem_append.1 met
      have countable : arguments.count + 1 ≤ maxCount := metCall _ List.mem_cons_self
      rw [Call.code, callsIn_append, callsIn_append, arguments.callsIn_code metArguments,
        callsIn_call _ countable, Call.calls]
      rfl
  | qualified owner subroutine arguments =>
      obtain ⟨metArguments, metCall⟩ := List.forall_mem_append.1 met
      have countable := metCall _ List.mem_cons_self
      have passed := arguments.callsIn_code metArguments
      rw [Call.code, Call.calls]
      cases found : environment.place? owner with
      | some receiver =>
          rw [found] at countable
          have called : callsIn [.call (receiver.type ++ "." ++ subroutine) _] = _ :=
            callsIn_call _ countable
          simp only [callsIn_append, passed]
          exact congrArg (_ ++ ·) called
      | none =>
          rw [found] at countable
          have called : callsIn [.call (owner ++ "." ++ subroutine) _] = _ :=
            callsIn_call _ countable
          simp only [callsIn_append, passed]
          exact congrArg (_ ++ ·) called

/-- The calls in the code of arguments are their calls. -/
theorem Arguments.callsIn_code (tree : Arguments)
    (met : ∀ demand ∈ tree.demands environment, demand.Met environment) :
    callsIn (tree.code environment) = tree.calls environment := by
  cases tree with
  | nil => rfl
  | cons first others =>
      obtain ⟨metFirst, metOthers⟩ := List.forall_mem_append.1 met
      rw [Arguments.code, callsIn_append, first.callsIn_code metFirst,
        others.callsIn_code metOthers, Arguments.calls]

end

variable (label : Nat → Label)

mutual

/-- The calls in the code of a statement are its calls. -/
theorem Statement.callsIn_code (tree : Statement)
    (met : ∀ demand ∈ tree.demands environment, demand.Met environment) (number : Nat) :
    callsIn (tree.code environment label number) = tree.calls environment := by
  cases tree with
  | assign target value =>
      have computed := value.callsIn_code fun demand member => met demand (.tail _ member)
      rw [Statement.code, callsIn_append, computed, callsIn_store]
      exact List.append_nil _
  | assignElement array index value =>
      obtain ⟨metAddress, metValue⟩ := List.forall_mem_append.1 met
      have address := index.callsIn_code fun demand member => metAddress demand (.tail _ member)
      rw [Statement.code, Statement.calls]
      simp only [callsIn_append, callsIn_load, address, value.callsIn_code metValue]
      simp [callsIn_cons, Instruction.call?]
  | choice test body alternative =>
      obtain ⟨met, metAlternative⟩ := List.forall_mem_append.1 met
      obtain ⟨metTest, metBody⟩ := List.forall_mem_append.1 met
      rw [Statement.code, Statement.calls]
      simp only [callsIn_append, test.callsIn_code metTest, body.callsIn_code metBody,
        alternative.callsIn_code metAlternative]
      simp [callsIn_cons, Instruction.call?]
  | loop test body =>
      obtain ⟨metTest, metBody⟩ := List.forall_mem_append.1 met
      rw [Statement.code, Statement.calls]
      simp only [callsIn_append, test.callsIn_code metTest, body.callsIn_code metBody]
      simp [callsIn_cons, Instruction.call?]
  | perform call =>
      rw [Statement.code, callsIn_append, call.callsIn_code met]
      exact List.append_nil _
  | «return» value =>
      cases value with
      | none => rfl
      | some value =>
          rw [Statement.code, callsIn_append, value.callsIn_code met]
          exact List.append_nil _

/-- The calls in the code of statements are their calls. -/
theorem Statements.callsIn_code (tree : Statements)
    (met : ∀ demand ∈ tree.demands environment, demand.Met environment) (number : Nat) :
    callsIn (tree.code environment label number) = tree.calls environment := by
  cases tree with
  | nil => rfl
  | cons first others =>
      obtain ⟨metFirst, metOthers⟩ := List.forall_mem_append.1 met
      rw [Statements.code, callsIn_append, first.callsIn_code metFirst,
        others.callsIn_code metOthers, Statements.calls]

/-- The calls in the code of an alternative are its calls. -/
theorem Alternative.callsIn_code (tree : Alternative)
    (met : ∀ demand ∈ tree.demands environment, demand.Met environment) (number : Nat) :
    callsIn (tree.code environment label number) = tree.calls environment := by
  cases tree with
  | absent => rfl
  | present body => exact body.callsIn_code met number

end

end Met

/-- The calls in the code of a subroutine whose demands are met. -/
theorem Subroutine.Admissible.callsIn_code {className : String}
    {ofClass : List (Declaration ClassStorage)} {subroutine : Subroutine}
    (admissible : subroutine.Admissible className ofClass) (label : Nat → Label) (number : Nat) :
    callsIn (subroutine.code className ofClass label number) =
      subroutine.calls className ofClass := by
  have prologue (fieldCount : Nat) :
      callsIn (subroutine.kind.prologue fieldCount) = subroutine.kind.calls := by
    cases subroutine.kind <;> rfl
  rw [Subroutine.code, callsIn_append, callsIn_append, prologue,
    subroutine.body.callsIn_code label admissible.demands, Subroutine.calls]
  rfl

end Grammar

end JackCompiler
