import JackCompiler.Proofs.Generation.Calls
import JackCompiler.Proofs.Lexing.Words

/-!
# Full names

The full name of a subroutine is a word, a dot and a word. Behind the dot stands a name of the tree.
In front of it stands a class: that of the tree, one that the tree names, or the type of a variable,
which may also be a reserved word. So all that code calls has a full name if the names in its tree
are words.
-/

namespace JackCompiler

open Grammar Lexing

/-- A full name: that of a class and that of a subroutine, joined by a dot. -/
def IsFullName (text : String) : Prop :=
  ∃ owner name, IsWord owner ∧ IsWord name ∧ text = owner ++ "." ++ name

/-- Reserved words are words. -/
theorem isWord_keyword (word : Keyword) : IsWord word.text := by
  cases word <;> decide

/-- The library's subroutines have full names. -/
theorem isFullName_allocate : IsFullName Library.allocate :=
  ⟨"Memory", "alloc", by decide, by decide, rfl⟩

/-- A class and the variables of a subroutine whose names and types are words. -/
structure Environment.Worded (environment : Environment) : Prop where
  className : IsWord environment.className
  types : ∀ {name place}, environment.place? name = some place → IsWord place.type

namespace Grammar

/-! ## Calls of a tree -/

/-- The calls of a string constant go to the library. -/
theorem fullName_string (contents : String) :
    ∀ call ∈ stringCalls contents, IsFullName call.1 := by
  have made : IsFullName Library.newString := ⟨"String", "new", by decide, by decide, rfl⟩
  have appended : IsFullName Library.appendCharacter :=
    ⟨"String", "appendChar", by decide, by decide, rfl⟩
  refine List.forall_mem_cons.2 ⟨made, fun call member => ?_⟩
  obtain ⟨_, _, rfl⟩ := List.mem_map.1 member
  exact appended

/-- The calls of operators go to the library. -/
theorem fullName_operator (operator : BinaryOperator) :
    ∀ call ∈ operatorCalls operator, IsFullName call.1 := by
  have multiply : IsFullName Library.multiply := ⟨"Math", "multiply", by decide, by decide, rfl⟩
  have divide : IsFullName Library.divide := ⟨"Math", "divide", by decide, by decide, rfl⟩
  cases operator with
  | mul => exact List.forall_mem_singleton.2 multiply
  | div => exact List.forall_mem_singleton.2 divide
  | _ => exact List.forall_mem_nil _

section Trees

variable {environment : Environment}

mutual

/-- The calls of an expression have full names. -/
theorem Expression.fullName_calls (tree : Expression) (worded : environment.Worded)
    (names : NamesIn IsWord tree.yield) :
    ∀ call ∈ tree.calls environment, IsFullName call.1 := by
  cases tree with
  | mk first others =>
      exact List.forall_mem_append.2
        ⟨first.fullName_calls worded names.left, others.fullName_calls worded names.right⟩

/-- The calls of operands have full names. -/
theorem Operands.fullName_calls (tree : Operands) (worded : environment.Worded)
    (names : NamesIn IsWord tree.yield) :
    ∀ call ∈ tree.calls environment, IsFullName call.1 := by
  cases tree with
  | nil => exact List.forall_mem_nil _
  | cons operator operand others =>
      have operation := List.forall_mem_append.2
        ⟨operand.fullName_calls worded names.left.tail, fullName_operator operator⟩
      exact List.forall_mem_append.2 ⟨operation, others.fullName_calls worded names.right⟩

/-- The calls of a term have full names. -/
theorem Term.fullName_calls (tree : Term) (worded : environment.Worded)
    (names : NamesIn IsWord tree.yield) :
    ∀ call ∈ tree.calls environment, IsFullName call.1 := by
  cases tree with
  | integer | constant | name => exact List.forall_mem_nil _
  | string contents => exact fullName_string contents
  | element array index => exact index.fullName_calls worded names.left.right
  | call call => exact call.fullName_calls worded names
  | group inner => exact inner.fullName_calls worded names.left.right
  | unary operator operand => exact operand.fullName_calls worded names.tail

/-- A call has a full name: the name of a class or of a type, a dot and a name. -/
theorem Call.fullName_calls (tree : Call) (worded : environment.Worded)
    (names : NamesIn IsWord tree.yield) :
    ∀ call ∈ tree.calls environment, IsFullName call.1 := by
  cases tree with
  | own subroutine arguments =>
      have named : IsFullName (environment.className ++ "." ++ subroutine) :=
        ⟨_, _, worded.className, names.left.left.head, rfl⟩
      exact List.forall_mem_append.2
        ⟨arguments.fullName_calls worded names.left.right, List.forall_mem_singleton.2 named⟩
  | qualified owner subroutine arguments =>
      have inArguments := arguments.fullName_calls worded names.left.right
      have ownName : IsWord subroutine := names.left.left.tail.tail.head
      rw [Call.calls]
      cases found : environment.place? owner with
      | some receiver =>
          have named : IsFullName (receiver.type ++ "." ++ subroutine) :=
            ⟨_, _, worded.types found, ownName, rfl⟩
          exact List.forall_mem_append.2 ⟨inArguments, List.forall_mem_singleton.2 named⟩
      | none =>
          have named : IsFullName (owner ++ "." ++ subroutine) :=
            ⟨_, _, names.left.left.head, ownName, rfl⟩
          exact List.forall_mem_append.2 ⟨inArguments, List.forall_mem_singleton.2 named⟩

/-- The calls of arguments have full names. -/
theorem Arguments.fullName_calls (tree : Arguments) (worded : environment.Worded)
    (names : NamesIn IsWord tree.yield) :
    ∀ call ∈ tree.calls environment, IsFullName call.1 := by
  cases tree with
  | nil => exact List.forall_mem_nil _
  | cons first others =>
      exact List.forall_mem_append.2
        ⟨first.fullName_calls worded names.left,
          others.fullName_calls_following worded names.right⟩

/-- The calls of arguments behind a first one have full names. -/
theorem Arguments.fullName_calls_following (tree : Arguments) (worded : environment.Worded)
    (names : NamesIn IsWord tree.following) :
    ∀ call ∈ tree.calls environment, IsFullName call.1 := by
  cases tree with
  | nil => exact List.forall_mem_nil _
  | cons first others =>
      exact List.forall_mem_append.2
        ⟨first.fullName_calls worded names.left.tail,
          others.fullName_calls_following worded names.right⟩

end

mutual

/-- The calls of a statement have full names. -/
theorem Statement.fullName_calls (tree : Statement) (worded : environment.Worded)
    (names : NamesIn IsWord tree.yield) :
    ∀ call ∈ tree.calls environment, IsFullName call.1 := by
  cases tree with
  | assign target value => exact value.fullName_calls worded names.left.right
  | assignElement array index value =>
      exact List.forall_mem_append.2
        ⟨index.fullName_calls worded names.left.left.left.right,
          value.fullName_calls worded names.left.right⟩
  | choice test body alternative =>
      have tested := test.fullName_calls worded names.left.left.left.left.right
      have chosen := List.forall_mem_append.2
        ⟨tested, body.fullName_calls worded names.left.left.right⟩
      exact List.forall_mem_append.2 ⟨chosen, alternative.fullName_calls worded names.right⟩
  | loop test body =>
      exact List.forall_mem_append.2
        ⟨test.fullName_calls worded names.left.left.left.right,
          body.fullName_calls worded names.left.right⟩
  | perform call => exact call.fullName_calls worded names.left.right
  | «return» value =>
      cases value with
      | none => exact List.forall_mem_nil _
      | some value => exact value.fullName_calls worded names.left.right

/-- The calls of statements have full names. -/
theorem Statements.fullName_calls (tree : Statements) (worded : environment.Worded)
    (names : NamesIn IsWord tree.yield) :
    ∀ call ∈ tree.calls environment, IsFullName call.1 := by
  cases tree with
  | nil => exact List.forall_mem_nil _
  | cons first others =>
      exact List.forall_mem_append.2
        ⟨first.fullName_calls worded names.left, others.fullName_calls worded names.right⟩

/-- The calls of an alternative have full names. -/
theorem Alternative.fullName_calls (tree : Alternative) (worded : environment.Worded)
    (names : NamesIn IsWord tree.yield) :
    ∀ call ∈ tree.calls environment, IsFullName call.1 := by
  cases tree with
  | absent => exact List.forall_mem_nil _
  | present body => exact body.fullName_calls worded names.left.right

end

end Trees

/-! ## Classes -/

/-- The name of a type is a word. -/
theorem isWord_type {type : TypeName} {rest : List Terminal}
    (names : NamesIn IsWord (type.terminal :: rest)) : IsWord type.text := by
  cases type with
  | int => exact isWord_keyword .int
  | char => exact isWord_keyword .char
  | boolean => exact isWord_keyword .boolean
  | named text => exact names.head

/-- Variables of one type are declared with a word as their type. -/
theorem isWord_declarations {κ : Type} {storage : κ} {group : Variables}
    (names : NamesIn IsWord group.yield) :
    ∀ declaration ∈ group.declarations storage, IsWord declaration.type := by
  intro declaration member
  obtain ⟨_, _, rfl⟩ := List.mem_map.1 member
  exact isWord_type names.left.left

section Classes

variable {tree : ClassDeclaration}

/-- Variables of a class are declared with words as their types. -/
theorem isWord_classVariables (names : NamesIn IsWord tree.yield) :
    ∀ declaration ∈ tree.declarations, IsWord declaration.type := by
  intro declaration member
  obtain ⟨declared, isDeclared, member⟩ := List.mem_flatMap.1 member
  have inGroup : NamesIn IsWord declared.yield := names.left.left.right.flatMap isDeclared
  exact isWord_declarations inGroup.tail declaration member

/-- Parameters are declared with words as their types. -/
theorem isWord_parameters {parameters : List Parameter}
    (names : NamesIn IsWord (parametersYield parameters)) :
    ∀ parameter ∈ parameters, IsWord parameter.type.text := by
  cases parameters with
  | nil => exact List.forall_mem_nil _
  | cons first others =>
      refine List.forall_mem_cons.2 ⟨isWord_type names.left, fun parameter member => ?_⟩
      exact isWord_type (names.right.flatMap member).tail

/-- Variables of a subroutine are declared with words as their types, the receiver with the class.
-/
theorem isWord_subroutineVariables {className : String} {subroutine : Subroutine}
    (isWord : IsWord className) (names : NamesIn IsWord subroutine.yield) :
    ∀ declaration ∈ subroutine.declarations className, IsWord declaration.type := by
  have receiver : ∀ declaration ∈ subroutine.kind.receiver className,
      IsWord declaration.type := by
    cases subroutine.kind with
    | method => exact List.forall_mem_singleton.2 isWord
    | constructor | function => exact List.forall_mem_nil _
  have parameters : ∀ declaration ∈ subroutine.parameterDeclarations,
      IsWord declaration.type := by
    intro declaration member
    obtain ⟨parameter, isParameter, rfl⟩ := List.mem_map.1 member
    exact isWord_parameters names.left.left.left.left.right parameter isParameter
  have locals : ∀ declaration ∈ subroutine.localDeclarations, IsWord declaration.type := by
    intro declaration member
    obtain ⟨group, isGroup, member⟩ := List.mem_flatMap.1 member
    have inGroup : NamesIn IsWord (.keyword .var :: group.yield) :=
      names.left.left.right.flatMap isGroup
    exact isWord_declarations inGroup.tail declaration member
  exact List.forall_mem_append.2 ⟨List.forall_mem_append.2 ⟨receiver, parameters⟩, locals⟩

/-- What a name stands for has the type of one of its declarations. -/
theorem type_of_symbol? {κ : Type} [DecidableEq κ] {declared : List (Declaration κ)}
    {name : String} {symbol : Symbol κ} (found : Declaration.symbol? declared name = some symbol) :
    ∃ declaration ∈ declared, symbol.type = declaration.type := by
  induction declared with
  | nil => cases found
  | cons latest earlier inductionHypothesis =>
      rw [Declaration.symbol?] at found
      split at found
      · cases found
        exact ⟨latest, List.mem_cons_self, rfl⟩
      · obtain ⟨declaration, member, same⟩ := inductionHypothesis found
        exact ⟨declaration, List.mem_cons_of_mem _ member, same⟩

/-- In the environment of a subroutine all types are words. -/
theorem worded_environment (names : NamesIn IsWord tree.yield) {subroutine : Subroutine}
    (member : subroutine ∈ tree.subroutines) :
    (subroutine.environment tree.name tree.declarations).Worded where
  className := names.className
  types := by
    intro name place found
    simp only [Subroutine.environment, Environment.ofDeclarations] at found
    split at found
    · next symbol inSubroutine =>
        cases found
        obtain ⟨declaration, isDeclared, same⟩ := type_of_symbol? inSubroutine
        have isWord := isWord_subroutineVariables names.className (names.subroutine member)
          declaration (List.mem_reverse.1 isDeclared)
        exact (congrArg IsWord same).mpr isWord
    · obtain ⟨symbol, inClass, rfl⟩ := Option.map_eq_some_iff.1 found
      obtain ⟨declaration, isDeclared, same⟩ := type_of_symbol? inClass
      have isWord := isWord_classVariables names declaration (List.mem_reverse.1 isDeclared)
      exact (congrArg IsWord same).mpr isWord

/-- All that a subroutine calls has a full name. -/
theorem Subroutine.fullName_calls (names : NamesIn IsWord tree.yield) {subroutine : Subroutine}
    (member : subroutine ∈ tree.subroutines) :
    ∀ call ∈ subroutine.calls tree.name tree.declarations, IsFullName call.1 := by
  have prologue : ∀ call ∈ subroutine.kind.calls, IsFullName call.1 := by
    cases subroutine.kind with
    | constructor => exact List.forall_mem_singleton.2 isFullName_allocate
    | function | method => exact List.forall_mem_nil _
  exact List.forall_mem_append.2 ⟨prologue,
    subroutine.body.fullName_calls (worded_environment names member) (names.body member)⟩

end Classes

end Grammar

end JackCompiler
