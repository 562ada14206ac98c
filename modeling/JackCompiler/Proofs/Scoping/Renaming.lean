import JackCompiler.Proofs.Output.Operands
import JackCompiler.Proofs.Recognition.Language
import Mathlib.Data.List.Forall2
import Mathlib.Data.Set.Function

/-!
# Renamed variables

What its variables are called makes no difference to a class: with other names for them it compiles
to the same code. A new name is given where a variable is declared and where a name that is looked
up stands for one. Types, the class and its subroutines keep their names, and so does the class that
a call goes to when its first name is no variable.

An environment and that of the renamed class agree on the names that a tree looks up; then the tree
and the renamed tree have the same code and make the same demands.
-/

namespace JackCompiler

open Grammar

namespace Grammar

/-! ## Trees -/

mutual

/-- An expression with other names in the places where names are looked up. -/
def Expression.rename (newName : String → String) : Expression → Expression
  | .mk first others => .mk (first.rename newName) (others.rename newName)

/-- Operands with other names behind the same operators. -/
def Operands.rename (newName : String → String) : Operands → Operands
  | .nil => .nil
  | .cons operator operand others => .cons operator (operand.rename newName) (others.rename newName)

/-- A term with other names: constants have none, and a variable or array is called by the new
one. -/
def Term.rename (newName : String → String) : Term → Term
  | .integer value => .integer value
  | .string contents => .string contents
  | .constant value => .constant value
  | .name text => .name (newName text)
  | .element array index => .element (newName array) (index.rename newName)
  | .call call => .call (call.rename newName)
  | .group inner => .group (inner.rename newName)
  | .unary operator operand => .unary operator (operand.rename newName)

/-- A call with other names. The subroutine keeps its name; what it is called on need not. -/
def Call.rename (newName : String → String) : Call → Call
  | .own subroutine arguments => .own subroutine (arguments.rename newName)
  | .qualified owner subroutine arguments =>
      .qualified (newName owner) subroutine (arguments.rename newName)

/-- Arguments with other names. -/
def Arguments.rename (newName : String → String) : Arguments → Arguments
  | .nil => .nil
  | .cons first others => .cons (first.rename newName) (others.rename newName)

end

mutual

/-- A statement with other names in the places where names are looked up. -/
def Statement.rename (newName : String → String) : Statement → Statement
  | .assign target value => .assign (newName target) (value.rename newName)
  | .assignElement array index value =>
      .assignElement (newName array) (index.rename newName) (value.rename newName)
  | .choice test body alternative =>
      .choice (test.rename newName) (body.rename newName) (alternative.rename newName)
  | .loop test body => .loop (test.rename newName) (body.rename newName)
  | .perform call => .perform (call.rename newName)
  | .return none => .return none
  | .return (some value) => .return (some (value.rename newName))

/-- Statements with other names. -/
def Statements.rename (newName : String → String) : Statements → Statements
  | .nil => .nil
  | .cons first others => .cons (first.rename newName) (others.rename newName)

/-- The statements of an alternative with other names. -/
def Alternative.rename (newName : String → String) : Alternative → Alternative
  | .absent => .absent
  | .present body => .present (body.rename newName)

end

mutual

/-- The names that are looked up in an expression: variables, arrays, and what calls are made on. -/
def Expression.lookups : Expression → List String
  | .mk first others => first.lookups ++ others.lookups

/-- The names that are looked up in operands. -/
def Operands.lookups : Operands → List String
  | .nil => []
  | .cons _ operand others => operand.lookups ++ others.lookups

/-- The names that are looked up in a term. -/
def Term.lookups : Term → List String
  | .integer _ | .string _ | .constant _ => []
  | .name text => [text]
  | .element array index => array :: index.lookups
  | .call call => call.lookups
  | .group inner => inner.lookups
  | .unary _ operand => operand.lookups

/-- The names that are looked up in a call: what it is made on, if it says so, and its arguments'.
-/
def Call.lookups : Call → List String
  | .own _ arguments => arguments.lookups
  | .qualified owner _ arguments => owner :: arguments.lookups

/-- The names that are looked up in arguments, from the first one on. -/
def Arguments.lookups : Arguments → List String
  | .nil => []
  | .cons first others => first.lookups ++ others.lookups

end

mutual

/-- The names that are looked up in a statement: those in expressions, and what is assigned to. -/
def Statement.lookups : Statement → List String
  | .assign target value => target :: value.lookups
  | .assignElement array index value => array :: index.lookups ++ value.lookups
  | .choice test body alternative => test.lookups ++ body.lookups ++ alternative.lookups
  | .loop test body => test.lookups ++ body.lookups
  | .perform call => call.lookups
  | .return none => []
  | .return (some value) => value.lookups

/-- The names that are looked up in statements, from the first one on. -/
def Statements.lookups : Statements → List String
  | .nil => []
  | .cons first others => first.lookups ++ others.lookups

/-- The names that are looked up in an alternative. -/
def Alternative.lookups : Alternative → List String
  | .absent => []
  | .present body => body.lookups

end

/-! ## Agreement -/

/-- Two environments agree on names, each looked up in the second one under its other name. -/
structure Renames (environment environment' : Environment) (newName : String → String)
    (names : List String) : Prop where
  className : environment'.className = environment.className
  place : ∀ name ∈ names, environment'.place? (newName name) = environment.place? name
  /-- Names that stand for nothing are not renamed. -/
  foreign : ∀ name ∈ names, environment.place? name = none → newName name = name

section Agreement

variable {environment environment' : Environment} {newName : String → String}
  {name : String} {names others : List String}

namespace Renames

/-- Agreement on names of two trees is agreement on those of the first one. -/
theorem left (renames : Renames environment environment' newName (names ++ others)) :
    Renames environment environment' newName names where
  className := renames.className
  place name member := renames.place name (List.mem_append_left others member)
  foreign name member := renames.foreign name (List.mem_append_left others member)

/-- Agreement on names of two trees is agreement on those of the second one. -/
theorem right (renames : Renames environment environment' newName (names ++ others)) :
    Renames environment environment' newName others where
  className := renames.className
  place name member := renames.place name (List.mem_append_right names member)
  foreign name member := renames.foreign name (List.mem_append_right names member)

/-- Agreement on a name and others is agreement on the others. -/
theorem tail (renames : Renames environment environment' newName (name :: names)) :
    Renames environment environment' newName names where
  className := renames.className
  place other member := renames.place other (List.mem_cons_of_mem name member)
  foreign other member := renames.foreign other (List.mem_cons_of_mem name member)

/-- A name that is agreed on has the same place under its other name. -/
theorem head (renames : Renames environment environment' newName (name :: names)) :
    environment'.place? (newName name) = environment.place? name :=
  renames.place name List.mem_cons_self

/-- A name that is agreed on is loaded by the same instruction under its other name. -/
theorem load (renames : Renames environment environment' newName (name :: names)) :
    environment'.load (newName name) = environment.load name := by
  rw [Environment.load, Environment.load, renames.head]

/-- A name that is agreed on is stored to by the same instruction under its other name. -/
theorem store (renames : Renames environment environment' newName (name :: names)) :
    environment'.store (newName name) = environment.store name := by
  rw [Environment.store, Environment.store, renames.head]

end Renames

/-! ## Code -/

/-- Other names leave the number of arguments as it is. -/
@[simp] theorem Arguments.count_rename (tree : Arguments) :
    (tree.rename newName).count = tree.count := by
  cases tree with
  | nil => rfl
  | cons first others => simp [Arguments.rename, Arguments.count, others.count_rename]

mutual

/-- An expression has the same code under other names. -/
theorem Expression.code_rename (tree : Expression)
    (renames : Renames environment environment' newName tree.lookups) :
    (tree.rename newName).code environment' = tree.code environment := by
  cases tree with
  | mk first others =>
      simp only [Expression.rename, Expression.code, first.code_rename renames.left,
        others.code_rename renames.right]

/-- Operands have the same code under other names. -/
theorem Operands.code_rename (tree : Operands)
    (renames : Renames environment environment' newName tree.lookups) :
    (tree.rename newName).code environment' = tree.code environment := by
  cases tree with
  | nil => rfl
  | cons operator operand others =>
      simp only [Operands.rename, Operands.code, operand.code_rename renames.left,
        others.code_rename renames.right]

/-- A term has the same code under other names. -/
theorem Term.code_rename (tree : Term)
    (renames : Renames environment environment' newName tree.lookups) :
    (tree.rename newName).code environment' = tree.code environment := by
  cases tree with
  | integer | string | constant => rfl
  | name text => exact renames.load
  | element array index =>
      simp only [Term.rename, Term.code, renames.load, index.code_rename renames.tail]
  | call call => exact call.code_rename renames
  | group inner => exact inner.code_rename renames
  | unary operator operand =>
      simp only [Term.rename, Term.code, operand.code_rename renames]

/-- A call has the same code under other names: its receiver is the same variable, or a class
still. -/
theorem Call.code_rename (tree : Call)
    (renames : Renames environment environment' newName tree.lookups) :
    (tree.rename newName).code environment' = tree.code environment := by
  cases tree with
  | own subroutine arguments =>
      simp only [Call.rename, Call.code, arguments.code_rename renames, arguments.count_rename,
        renames.className]
  | qualified owner subroutine arguments =>
      simp only [Call.rename, Call.code, arguments.code_rename renames.tail,
        arguments.count_rename, renames.head]
      cases found : environment.place? owner with
      | some receiver => rfl
      | none => rw [renames.foreign owner List.mem_cons_self found]

/-- Arguments have the same code under other names. -/
theorem Arguments.code_rename (tree : Arguments)
    (renames : Renames environment environment' newName tree.lookups) :
    (tree.rename newName).code environment' = tree.code environment := by
  cases tree with
  | nil => rfl
  | cons first others =>
      simp only [Arguments.rename, Arguments.code, first.code_rename renames.left,
        others.code_rename renames.right]

end

mutual

/-- Other names leave the number of labels of a statement as it is. -/
@[simp] theorem Statement.labelCount_rename (tree : Statement) :
    (tree.rename newName).labelCount = tree.labelCount := by
  cases tree with
  | choice test body alternative =>
      simp [Statement.rename, Statement.labelCount, body.labelCount_rename,
        alternative.labelCount_rename]
  | loop test body => simp [Statement.rename, Statement.labelCount, body.labelCount_rename]
  | assign | assignElement | perform => rfl
  | «return» value => cases value <;> rfl

/-- Other names leave the number of labels of statements as it is. -/
@[simp] theorem Statements.labelCount_rename (tree : Statements) :
    (tree.rename newName).labelCount = tree.labelCount := by
  cases tree with
  | nil => rfl
  | cons first others =>
      simp [Statements.rename, Statements.labelCount, first.labelCount_rename,
        others.labelCount_rename]

/-- Other names leave the number of labels of an alternative as it is. -/
@[simp] theorem Alternative.labelCount_rename (tree : Alternative) :
    (tree.rename newName).labelCount = tree.labelCount := by
  cases tree with
  | absent => rfl
  | present body => exact body.labelCount_rename

end

section Statements

variable {label : Nat → Label}

mutual

/-- A statement has the same code under other names. -/
theorem Statement.code_rename (tree : Statement) {number : Nat}
    (renames : Renames environment environment' newName tree.lookups) :
    (tree.rename newName).code environment' label number = tree.code environment label number := by
  cases tree with
  | assign target value =>
      simp only [Statement.rename, Statement.code, value.code_rename renames.tail, renames.store]
  | assignElement array index value =>
      simp only [Statement.rename, Statement.code, index.code_rename renames.left.tail,
        value.code_rename renames.right, renames.left.load]
  | choice test body alternative =>
      simp only [Statement.rename, Statement.code, test.code_rename renames.left.left,
        body.code_rename renames.left.right, alternative.code_rename renames.right,
        body.labelCount_rename]
  | loop test body =>
      simp only [Statement.rename, Statement.code, test.code_rename renames.left,
        body.code_rename renames.right]
  | perform call => simp only [Statement.rename, Statement.code, call.code_rename renames]
  | «return» value =>
      cases value with
      | none => rfl
      | some value => simp only [Statement.rename, Statement.code, value.code_rename renames]

/-- Statements have the same code under other names. -/
theorem Statements.code_rename (tree : Statements) {number : Nat}
    (renames : Renames environment environment' newName tree.lookups) :
    (tree.rename newName).code environment' label number = tree.code environment label number := by
  cases tree with
  | nil => rfl
  | cons first others =>
      simp only [Statements.rename, Statements.code, first.code_rename renames.left,
        others.code_rename renames.right, first.labelCount_rename]

/-- An alternative has the same code under other names. -/
theorem Alternative.code_rename (tree : Alternative) {number : Nat}
    (renames : Renames environment environment' newName tree.lookups) :
    (tree.rename newName).code environment' label number = tree.code environment label number := by
  cases tree with
  | absent => rfl
  | present body => exact body.code_rename renames

end

end Statements

/-! ## Demands -/

/-- A name that is visible is visible under its other name. -/
theorem Renames.met (renames : Renames environment environment' newName (name :: names))
    (met : Demand.Met environment (.visible name)) :
    Demand.Met environment' (.visible (newName name)) := by
  show (environment'.place? (newName name)).isSome
  rw [renames.head]
  exact met

mutual

/-- What an expression demands is met under other names, where it was met. -/
theorem Expression.met_rename (tree : Expression)
    (renames : Renames environment environment' newName tree.lookups)
    (met : ∀ demand ∈ tree.demands environment, demand.Met environment) :
    ∀ demand ∈ (tree.rename newName).demands environment', demand.Met environment' := by
  cases tree with
  | mk first others =>
      have ⟨inFirst, inOthers⟩ := List.forall_mem_append.1 met
      exact List.forall_mem_append.2
        ⟨first.met_rename renames.left inFirst, others.met_rename renames.right inOthers⟩

/-- What operands demand is met under other names, where it was met. -/
theorem Operands.met_rename (tree : Operands)
    (renames : Renames environment environment' newName tree.lookups)
    (met : ∀ demand ∈ tree.demands environment, demand.Met environment) :
    ∀ demand ∈ (tree.rename newName).demands environment', demand.Met environment' := by
  cases tree with
  | nil => exact List.forall_mem_nil _
  | cons operator operand others =>
      have ⟨inOperand, inOthers⟩ := List.forall_mem_append.1 met
      exact List.forall_mem_append.2
        ⟨operand.met_rename renames.left inOperand, others.met_rename renames.right inOthers⟩

/-- What a term demands is met under other names, where it was met. -/
theorem Term.met_rename (tree : Term)
    (renames : Renames environment environment' newName tree.lookups)
    (met : ∀ demand ∈ tree.demands environment, demand.Met environment) :
    ∀ demand ∈ (tree.rename newName).demands environment', demand.Met environment' := by
  cases tree with
  | integer | string | constant => exact List.forall_mem_nil _
  | name text =>
      exact List.forall_mem_singleton.2 (renames.met (List.forall_mem_singleton.1 met))
  | element array index =>
      have ⟨isArray, inIndex⟩ := List.forall_mem_cons.1 met
      exact List.forall_mem_cons.2 ⟨renames.met isArray, index.met_rename renames.tail inIndex⟩
  | call call => exact call.met_rename renames met
  | group inner => exact inner.met_rename renames met
  | unary operator operand => exact operand.met_rename renames met

/-- What a call demands is met under other names, where it was met. -/
theorem Call.met_rename (tree : Call)
    (renames : Renames environment environment' newName tree.lookups)
    (met : ∀ demand ∈ tree.demands environment, demand.Met environment) :
    ∀ demand ∈ (tree.rename newName).demands environment', demand.Met environment' := by
  cases tree with
  | own subroutine arguments =>
      have ⟨inArguments, counted⟩ := List.forall_mem_append.1 met
      have fits : arguments.count + 1 ≤ maxCount := counted _ List.mem_cons_self
      refine List.forall_mem_append.2 ⟨arguments.met_rename renames inArguments, ?_⟩
      rw [arguments.count_rename]
      exact List.forall_mem_singleton.2 fits
  | qualified owner subroutine arguments =>
      have ⟨inArguments, counted⟩ := List.forall_mem_append.1 met
      have fits : (arguments.count + if (environment.place? owner).isSome then 1 else 0) ≤
          maxCount := counted _ List.mem_cons_self
      refine List.forall_mem_append.2 ⟨arguments.met_rename renames.tail inArguments, ?_⟩
      rw [arguments.count_rename, renames.head]
      exact List.forall_mem_singleton.2 fits

/-- What arguments demand is met under other names, where it was met. -/
theorem Arguments.met_rename (tree : Arguments)
    (renames : Renames environment environment' newName tree.lookups)
    (met : ∀ demand ∈ tree.demands environment, demand.Met environment) :
    ∀ demand ∈ (tree.rename newName).demands environment', demand.Met environment' := by
  cases tree with
  | nil => exact List.forall_mem_nil _
  | cons first others =>
      have ⟨inFirst, inOthers⟩ := List.forall_mem_append.1 met
      exact List.forall_mem_append.2
        ⟨first.met_rename renames.left inFirst, others.met_rename renames.right inOthers⟩

end

mutual

/-- What a statement demands is met under other names, where it was met. -/
theorem Statement.met_rename (tree : Statement)
    (renames : Renames environment environment' newName tree.lookups)
    (met : ∀ demand ∈ tree.demands environment, demand.Met environment) :
    ∀ demand ∈ (tree.rename newName).demands environment', demand.Met environment' := by
  cases tree with
  | assign target value =>
      have ⟨isTarget, inValue⟩ := List.forall_mem_cons.1 met
      exact List.forall_mem_cons.2 ⟨renames.met isTarget, value.met_rename renames.tail inValue⟩
  | assignElement array index value =>
      have ⟨inElement, inValue⟩ := List.forall_mem_append.1 met
      have ⟨isArray, inIndex⟩ := List.forall_mem_cons.1 inElement
      refine List.forall_mem_append.2 ⟨?_, value.met_rename renames.right inValue⟩
      exact List.forall_mem_cons.2
        ⟨renames.left.met isArray, index.met_rename renames.left.tail inIndex⟩
  | choice test body alternative =>
      have ⟨inBoth, inAlternative⟩ := List.forall_mem_append.1 met
      have ⟨inTest, inBody⟩ := List.forall_mem_append.1 inBoth
      refine List.forall_mem_append.2 ⟨?_, alternative.met_rename renames.right inAlternative⟩
      exact List.forall_mem_append.2
        ⟨test.met_rename renames.left.left inTest, body.met_rename renames.left.right inBody⟩
  | loop test body =>
      have ⟨inTest, inBody⟩ := List.forall_mem_append.1 met
      exact List.forall_mem_append.2
        ⟨test.met_rename renames.left inTest, body.met_rename renames.right inBody⟩
  | perform call => exact call.met_rename renames met
  | «return» value =>
      cases value with
      | none => exact List.forall_mem_nil _
      | some value => exact value.met_rename renames met

/-- What statements demand is met under other names, where it was met. -/
theorem Statements.met_rename (tree : Statements)
    (renames : Renames environment environment' newName tree.lookups)
    (met : ∀ demand ∈ tree.demands environment, demand.Met environment) :
    ∀ demand ∈ (tree.rename newName).demands environment', demand.Met environment' := by
  cases tree with
  | nil => exact List.forall_mem_nil _
  | cons first others =>
      have ⟨inFirst, inOthers⟩ := List.forall_mem_append.1 met
      exact List.forall_mem_append.2
        ⟨first.met_rename renames.left inFirst, others.met_rename renames.right inOthers⟩

/-- What an alternative demands is met under other names, where it was met. -/
theorem Alternative.met_rename (tree : Alternative)
    (renames : Renames environment environment' newName tree.lookups)
    (met : ∀ demand ∈ tree.demands environment, demand.Met environment) :
    ∀ demand ∈ (tree.rename newName).demands environment', demand.Met environment' := by
  cases tree with
  | absent => exact List.forall_mem_nil _
  | present body => exact body.met_rename renames met

end

end Agreement

end Grammar

/-! ## Declarations -/

namespace Declaration

variable {κ : Type}

/-- A declaration under another name. -/
def rename (newName : String → String) (declaration : Declaration κ) : Declaration κ :=
  { declaration with name := newName declaration.name }

/-- A declaration and another one of the same variable, each under the name that is sought in its
place or neither. -/
structure Alike (name name' : String) (declaration declaration' : Declaration κ) : Prop where
  type : declaration'.type = declaration.type
  storage : declaration'.storage = declaration.storage
  sought : declaration'.name = name' ↔ declaration.name = name

variable [DecidableEq κ]

/-- As many variables of a storage are declared under other names. -/
@[simp] theorem count_map_rename (newName : String → String) (declared : List (Declaration κ))
    (storage : κ) : count (declared.map (rename newName)) storage = count declared storage :=
  List.countP_map

/-- Declarations of the same variables declare as many of each storage. -/
theorem count_of_alike {name name' : String} {declared declared' : List (Declaration κ)}
    (alike : List.Forall₂ (Alike name name') declared declared') (storage : κ) :
    count declared' storage = count declared storage := by
  induction alike with
  | nil => rfl
  | cons one _ inductionHypothesis =>
      rw [count_cons, count_cons, inductionHypothesis, one.storage]

/-- Variables are found under other names in the places where they were. -/
theorem variable_of_alike [StorageClass κ] {name name' : String}
    {declared declared' : List (Declaration κ)}
    (alike : List.Forall₂ (Alike name name') declared declared') :
    (symbol? declared' name').map Symbol.toVariable =
      (symbol? declared name).map Symbol.toVariable := by
  induction alike with
  | nil => rfl
  | @cons declaration _ _ _ one others inductionHypothesis =>
      rw [symbol?, symbol?]
      by_cases same : declaration.name = name
      · rw [if_pos same, if_pos (one.sought.2 same), one.type, one.storage,
          count_of_alike others]
        rfl
      · rw [if_neg same, if_neg (fun found => same (one.sought.1 found)), inductionHypothesis]

end Declaration

/-- What a name is called that stands for a variable; other names are kept. -/
def Environment.rename (environment : Environment) (newName : String → String) (name : String) :
    String :=
  if (environment.place? name).isSome then newName name else name

/-- A name has the place in an environment that the other name has in the environment of the same
variables. -/
theorem Environment.place?_of_alike {className : String} {name name' : String}
    {ofClass ofClass' : List (Declaration ClassStorage)}
    {ofSubroutine ofSubroutine' : List (Declaration SubroutineStorage)}
    (inClass : List.Forall₂ (Declaration.Alike name name') ofClass ofClass')
    (inSubroutine : List.Forall₂ (Declaration.Alike name name') ofSubroutine ofSubroutine') :
    (Environment.ofDeclarations className ofClass' ofSubroutine').place? name' =
      (Environment.ofDeclarations className ofClass ofSubroutine).place? name := by
  have outer := Declaration.variable_of_alike inClass
  have inner := Declaration.variable_of_alike inSubroutine
  simp only [ofDeclarations]
  revert inner
  cases Declaration.symbol? ofSubroutine' name' <;>
    cases Declaration.symbol? ofSubroutine name <;> intro inner
  · exact outer
  · cases inner
  · cases inner
  · exact inner

namespace Grammar

/-! ## Classes -/

/-- Variables of one type under other names. -/
def Variables.rename (newName : String → String) (group : Variables) : Variables :=
  { group with first := newName group.first, others := group.others.map newName }

/-- A subroutine of a class with other names for its variables and those of the class. -/
def Subroutine.rename (className : String) (ofClass : List (Declaration ClassStorage))
    (newName : String → String) (subroutine : Subroutine) : Subroutine :=
  { subroutine with
    parameters := subroutine.parameters.map fun parameter =>
      { parameter with name := newName parameter.name }
    locals := subroutine.locals.map (.rename newName)
    body := subroutine.body.rename ((subroutine.environment className ofClass).rename newName) }

/-- A class with other names for its variables and those of its subroutines. -/
def ClassDeclaration.rename (newName : String → String) (tree : ClassDeclaration) :
    ClassDeclaration :=
  { tree with
    groups := tree.groups.map fun declared =>
      { declared with group := declared.group.rename newName }
    subroutines := tree.subroutines.map (.rename tree.name tree.declarations newName) }

/-- The names of the parameters and local variables of a subroutine. -/
def Subroutine.variables (subroutine : Subroutine) : List String :=
  (subroutine.parameterDeclarations ++ subroutine.localDeclarations).map Declaration.name

/-- The names of all variables that are declared in a class and its subroutines. -/
def ClassDeclaration.variables (tree : ClassDeclaration) : List String :=
  tree.declarations.map Declaration.name ++ tree.subroutines.flatMap Subroutine.variables

section Classes

variable {newName : String → String} {className : String}
  {ofClass : List (Declaration ClassStorage)}

/-- Variables of one type under other names are declared under them. -/
theorem Variables.declarations_rename {κ : Type} (storage : κ) (group : Variables) :
    (group.rename newName).declarations storage =
      (group.declarations storage).map (.rename newName) := by
  simp [Variables.declarations, Variables.rename, Variables.names, Declaration.rename]

/-- The variables of a class are declared under their other names. -/
theorem ClassDeclaration.declarations_rename (tree : ClassDeclaration) :
    (tree.rename newName).declarations = tree.declarations.map (.rename newName) := by
  simp [ClassDeclaration.declarations, ClassDeclaration.rename, List.flatMap_map,
    List.map_flatMap, Variables.declarations_rename]

namespace Subroutine

variable {subroutine : Subroutine}

/-- The parameters of a subroutine are declared under their other names. -/
theorem parameterDeclarations_rename :
    (subroutine.rename className ofClass newName).parameterDeclarations =
      subroutine.parameterDeclarations.map (.rename newName) := by
  simp [parameterDeclarations, Subroutine.rename, Declaration.rename]

/-- The local variables of a subroutine are declared under their other names. -/
theorem localDeclarations_rename :
    (subroutine.rename className ofClass newName).localDeclarations =
      subroutine.localDeclarations.map (.rename newName) := by
  simp [localDeclarations, Subroutine.rename, List.flatMap_map, List.map_flatMap,
    Variables.declarations_rename]

/-- The receiver of a method keeps its name; the other variables of a subroutine are declared under
their other names. -/
theorem declarations_rename :
    (subroutine.rename className ofClass newName).declarations className =
      subroutine.kind.receiver className ++
        (subroutine.parameterDeclarations ++ subroutine.localDeclarations).map
          (.rename newName) := by
  rw [declarations, parameterDeclarations_rename, localDeclarations_rename, List.append_assoc,
    List.map_append]
  rfl

/-- The variables of a subroutine are called by their other names. -/
theorem variables_rename :
    (subroutine.rename className ofClass newName).variables =
      subroutine.variables.map newName := by
  simp [Subroutine.variables, parameterDeclarations_rename, localDeclarations_rename, Declaration.rename,
    Function.comp_def]

end Subroutine

/-- The variables of a class and of its subroutines are called by their other names. -/
theorem ClassDeclaration.variables_rename (tree : ClassDeclaration) :
    (tree.rename newName).variables = tree.variables.map newName := by
  simp only [ClassDeclaration.variables, ClassDeclaration.declarations_rename]
  simp [ClassDeclaration.rename, List.flatMap_map, List.map_flatMap, Subroutine.variables_rename,
    Declaration.rename, Function.comp_def]

end Classes

/-! ## Names -/

section Names

variable {Allowed : String → Prop}

mutual

/-- The names that are looked up in an expression are names of the expression. -/
theorem Expression.lookups_allowed (tree : Expression) (names : NamesIn Allowed tree.yield) :
    ∀ name ∈ tree.lookups, Allowed name := by
  cases tree with
  | mk first others =>
      exact List.forall_mem_append.2
        ⟨first.lookups_allowed names.left, others.lookups_allowed names.right⟩

/-- Names that are looked up in operands are read in them. -/
theorem Operands.lookups_allowed (tree : Operands) (names : NamesIn Allowed tree.yield) :
    ∀ name ∈ tree.lookups, Allowed name := by
  cases tree with
  | nil => exact List.forall_mem_nil _
  | cons operator operand others =>
      exact List.forall_mem_append.2
        ⟨operand.lookups_allowed names.left.tail, others.lookups_allowed names.right⟩

/-- Names that are looked up in a term are read in it. -/
theorem Term.lookups_allowed (tree : Term) (names : NamesIn Allowed tree.yield) :
    ∀ name ∈ tree.lookups, Allowed name := by
  cases tree with
  | integer | string | constant => exact List.forall_mem_nil _
  | name text => exact List.forall_mem_singleton.2 names.head
  | element array index =>
      exact List.forall_mem_cons.2
        ⟨names.left.left.head, index.lookups_allowed names.left.right⟩
  | call call => exact call.lookups_allowed names
  | group inner => exact inner.lookups_allowed names.left.right
  | unary operator operand => exact operand.lookups_allowed names.tail

/-- Names that are looked up in a call are read in it. -/
theorem Call.lookups_allowed (tree : Call) (names : NamesIn Allowed tree.yield) :
    ∀ name ∈ tree.lookups, Allowed name := by
  cases tree with
  | own subroutine arguments => exact arguments.lookups_allowed names.left.right
  | qualified owner subroutine arguments =>
      exact List.forall_mem_cons.2
        ⟨names.left.left.head, arguments.lookups_allowed names.left.right⟩

/-- Names that are looked up in arguments are read in them. -/
theorem Arguments.lookups_allowed (tree : Arguments) (names : NamesIn Allowed tree.yield) :
    ∀ name ∈ tree.lookups, Allowed name := by
  cases tree with
  | nil => exact List.forall_mem_nil _
  | cons first others =>
      exact List.forall_mem_append.2
        ⟨first.lookups_allowed names.left, others.lookups_allowed_following names.right⟩

/-- Names that are looked up in arguments behind a first one are read in them. -/
theorem Arguments.lookups_allowed_following (tree : Arguments)
    (names : NamesIn Allowed tree.following) : ∀ name ∈ tree.lookups, Allowed name := by
  cases tree with
  | nil => exact List.forall_mem_nil _
  | cons first others =>
      exact List.forall_mem_append.2
        ⟨first.lookups_allowed names.left.tail, others.lookups_allowed_following names.right⟩

end

mutual

/-- The names that are looked up in a statement are names of the statement. -/
theorem Statement.lookups_allowed (tree : Statement) (names : NamesIn Allowed tree.yield) :
    ∀ name ∈ tree.lookups, Allowed name := by
  cases tree with
  | assign target value =>
      exact List.forall_mem_cons.2
        ⟨names.left.left.tail.head, value.lookups_allowed names.left.right⟩
  | assignElement array index value =>
      have target := names.left.left.left.left.tail.head
      exact List.forall_mem_cons.2 ⟨target, List.forall_mem_append.2
        ⟨index.lookups_allowed names.left.left.left.right, value.lookups_allowed names.left.right⟩⟩
  | choice test body alternative =>
      have tested := test.lookups_allowed names.left.left.left.left.right
      have chosen := List.forall_mem_append.2 ⟨tested, body.lookups_allowed names.left.left.right⟩
      exact List.forall_mem_append.2 ⟨chosen, alternative.lookups_allowed names.right⟩
  | loop test body =>
      exact List.forall_mem_append.2
        ⟨test.lookups_allowed names.left.left.left.right, body.lookups_allowed names.left.right⟩
  | perform call => exact call.lookups_allowed names.left.right
  | «return» value =>
      cases value with
      | none => exact List.forall_mem_nil _
      | some value => exact value.lookups_allowed names.left.right

/-- Names that are looked up in statements are read in them. -/
theorem Statements.lookups_allowed (tree : Statements) (names : NamesIn Allowed tree.yield) :
    ∀ name ∈ tree.lookups, Allowed name := by
  cases tree with
  | nil => exact List.forall_mem_nil _
  | cons first others =>
      exact List.forall_mem_append.2
        ⟨first.lookups_allowed names.left, others.lookups_allowed names.right⟩

/-- Names that are looked up in an alternative are read in it. -/
theorem Alternative.lookups_allowed (tree : Alternative) (names : NamesIn Allowed tree.yield) :
    ∀ name ∈ tree.lookups, Allowed name := by
  cases tree with
  | absent => exact List.forall_mem_nil _
  | present body => exact body.lookups_allowed names.left.right

end

/-- Names of a group of variables are read in it. -/
theorem Variables.names_allowed {group : Variables} (names : NamesIn Allowed group.yield) :
    ∀ name ∈ group.names, Allowed name := by
  intro name member
  refine names name ?_
  rcases List.mem_cons.1 member with rfl | later
  · simp [Variables.yield]
  · simp [Variables.yield, later]

/-- Names of parameters are read in them. -/
theorem Parameter.names_allowed {parameters : List Parameter}
    (names : NamesIn Allowed (parametersYield parameters)) :
    ∀ parameter ∈ parameters, Allowed parameter.name := by
  intro parameter member
  refine names _ ?_
  cases parameters with
  | nil => cases member
  | cons first others =>
      rcases List.mem_cons.1 member with rfl | later
      · simp [parametersYield, Parameter.yield]
      · refine List.mem_append_right _ (List.mem_flatMap.2 ⟨parameter, later, ?_⟩)
        simp [Parameter.yield]

/-- Names of the parameters and local variables of a subroutine are read in it. -/
theorem Subroutine.variables_allowed {subroutine : Subroutine}
    (names : NamesIn Allowed subroutine.yield) : ∀ name ∈ subroutine.variables, Allowed name := by
  rw [Subroutine.variables, List.forall_mem_map]
  refine List.forall_mem_append.2 ⟨?_, ?_⟩
  · exact List.forall_mem_map.2 (Parameter.names_allowed names.left.left.left.left.right)
  · intro declaration member
    obtain ⟨group, inLocals, member⟩ := List.mem_flatMap.1 member
    obtain ⟨name, inGroup, rfl⟩ := List.mem_map.1 member
    refine Variables.names_allowed (fun text inYield => names text ?_) name inGroup
    have inLocals : .name text ∈ localsYield subroutine.locals :=
      List.mem_flatMap.2 ⟨group, inLocals, List.mem_cons_of_mem _ inYield⟩
    simp [Subroutine.yield, inLocals]

/-- The names of variables are names of the class. -/
theorem ClassDeclaration.variables_allowed {tree : ClassDeclaration}
    (names : NamesIn Allowed tree.yield) : ∀ name ∈ tree.variables, Allowed name := by
  refine List.forall_mem_append.2 ⟨?_, ?_⟩
  · rw [List.forall_mem_map]
    intro declaration member
    obtain ⟨declared, inGroups, member⟩ := List.mem_flatMap.1 member
    obtain ⟨name, inGroup, rfl⟩ := List.mem_map.1 member
    refine Variables.names_allowed (fun text inYield => names text ?_) name inGroup
    have inGroups : .name text ∈ tree.groups.flatMap ClassVariables.yield :=
      List.mem_flatMap.2 ⟨declared, inGroups, List.mem_cons_of_mem _ inYield⟩
    simp [ClassDeclaration.yield, -List.mem_flatMap, inGroups]
  · intro name member
    obtain ⟨subroutine, inClass, member⟩ := List.mem_flatMap.1 member
    refine Subroutine.variables_allowed (fun text inYield => names text ?_) name member
    have inClass : .name text ∈ tree.subroutines.flatMap Subroutine.yield :=
      List.mem_flatMap.2 ⟨subroutine, inClass, inYield⟩
    simp [ClassDeclaration.yield, -List.mem_flatMap, inClass]

end Names

/-! ## Renamed classes -/

/-- Whether variables of a class can have other names: different ones for different variables, and
none that is the name of a class that a call goes to. In a class that compiles, calls are all that
names are looked up for in vain. -/
structure ClassDeclaration.Renamable (tree : ClassDeclaration) (newName : String → String) :
    Prop where
  injective : Set.InjOn newName {name | name ∈ tree.variables}
  apart : ∀ subroutine ∈ tree.subroutines, ∀ name ∈ subroutine.body.lookups,
    (subroutine.environment tree.name tree.declarations).place? name = none →
      ∀ declared ∈ tree.variables, newName declared ≠ name

/-- What is declared in a class or in one of its subroutines is among the variables of the class. -/
theorem ClassDeclaration.mem_variables {tree : ClassDeclaration} :
    (∀ declaration ∈ tree.declarations, declaration.name ∈ tree.variables) ∧
      ∀ subroutine ∈ tree.subroutines, ∀ declaration ∈
        subroutine.parameterDeclarations ++ subroutine.localDeclarations,
          declaration.name ∈ tree.variables := by
  constructor
  · intro declaration member
    exact List.mem_append_left _ (List.mem_map_of_mem member)
  · intro subroutine inClass declaration member
    exact List.mem_append_right _
      (List.mem_flatMap.2 ⟨subroutine, inClass, List.mem_map_of_mem member⟩)

namespace ClassDeclaration.Renamable

variable {tree : ClassDeclaration} {newName : String → String} {subroutine : Subroutine}
  {name : String}

/-- A name that stands for something is that of a variable, unless it is the receiver. -/
theorem mem_variables_of_resolved (member : subroutine ∈ tree.subroutines)
    (notThis : name ≠ "this")
    (resolved : ((subroutine.environment tree.name tree.declarations).place? name).isSome) :
    name ∈ tree.variables := by
  rw [Subroutine.environment, Environment.isSome_place?_iff] at resolved
  simp only [List.mem_reverse, Subroutine.declarations, List.append_assoc] at resolved
  rcases resolved with ⟨declaration, found, rfl⟩ | ⟨declaration, found, rfl⟩
  · exact tree.mem_variables.1 declaration found
  · rcases List.mem_append.1 found with receiver | own
    · refine absurd ?_ notThis
      cases kind : subroutine.kind <;> simp_all [SubroutineKind.receiver]
    · exact tree.mem_variables.2 subroutine member declaration own

/-- A declaration that can be seen has the name that is looked up exactly if it has it afterwards. -/
theorem sought_iff (renamable : tree.Renamable newName) (member : subroutine ∈ tree.subroutines)
    (looked : name ∈ subroutine.body.lookups) (notThis : name ≠ "this")
    {declared : String} (inClass : declared ∈ tree.variables)
    (visible : ((subroutine.environment tree.name tree.declarations).place? declared).isSome) :
    newName declared = (subroutine.environment tree.name tree.declarations).rename newName name ↔
      declared = name := by
  unfold Environment.rename
  split
  · next resolved =>
      have inScope := mem_variables_of_resolved member notThis resolved
      exact ⟨fun same => renamable.injective inClass inScope same, congrArg newName⟩
  · next unresolved =>
      rw [Bool.not_eq_true, Option.isSome_eq_false_iff, Option.isNone_iff_eq_none] at unresolved
      constructor
      · intro same
        exact absurd same (renamable.apart subroutine member name looked unresolved declared inClass)
      · rintro rfl
        rw [unresolved] at visible
        cases visible

/-- A renamed class looks its variables up where they were. -/
theorem renames (renamable : tree.Renamable newName)
    (words : NamesIn (fun text => Keyword.ofText? text = none) tree.yield)
    (words' : NamesIn (fun text => Keyword.ofText? text = none) (tree.rename newName).yield)
    (member : subroutine ∈ tree.subroutines) :
    Renames (subroutine.environment tree.name tree.declarations)
      ((subroutine.rename tree.name tree.declarations newName).environment tree.name
        (tree.rename newName).declarations)
      ((subroutine.environment tree.name tree.declarations).rename newName)
      subroutine.body.lookups := by
  refine ⟨rfl, ?_, ?_⟩
  · intro name looked
    -- The receiver of a method goes by a reserved word, which no source can look up.
    have notThis : name ≠ "this" := by
      rintro rfl
      exact absurd (subroutine.body.lookups_allowed (words.body member) "this" looked) (by decide)
    have notThis' :
        (subroutine.environment tree.name tree.declarations).rename newName name ≠ "this" := by
      unfold Environment.rename
      split
      · next resolved =>
          have inScope := mem_variables_of_resolved member notThis resolved
          have word := ClassDeclaration.variables_allowed words' (newName name)
            (tree.variables_rename ▸ List.mem_map_of_mem inScope)
          intro isThis
          rw [isThis] at word
          exact absurd word (by decide)
      · exact notThis
    have visible (declared : String) :=
      @Environment.isSome_place?_iff tree.name tree.declarations.reverse
        (subroutine.declarations tree.name).reverse declared
    -- Both sequences of declarations are alike, one declaration at a time.
    refine Environment.place?_of_alike ?_ ?_
    · rw [tree.declarations_rename, ← List.map_reverse, List.forall₂_map_right_iff,
        List.forall₂_same]
      intro declaration found
      refine ⟨rfl, rfl, renamable.sought_iff member looked notThis
        (tree.mem_variables.1 declaration (List.mem_reverse.1 found)) ?_⟩
      exact (visible _).2 (.inl ⟨declaration, found, rfl⟩)
    · rw [Subroutine.declarations_rename, List.forall₂_reverse_iff, Subroutine.declarations,
        List.append_assoc]
      refine List.rel_append ?_ ?_
      · cases subroutine.kind with
        | method => exact .cons ⟨rfl, rfl, by simp [notThis.symm, notThis'.symm]⟩ .nil
        | constructor | function => exact .nil
      · rw [List.forall₂_map_right_iff, List.forall₂_same]
        intro declaration found
        refine ⟨rfl, rfl, renamable.sought_iff member looked notThis
          (tree.mem_variables.2 subroutine member declaration found) ?_⟩
        refine (visible _).2 (.inr ⟨declaration, List.mem_reverse.2 ?_, rfl⟩)
        rw [Subroutine.declarations, List.append_assoc]
        exact List.mem_append_right _ found
  · intro name _ foreign
    rw [Environment.rename, foreign]
    rfl

/-- A class that is admissible is admissible under other names, if neither names nor other names are
reserved words. -/
theorem admissible (renamable : tree.Renamable newName)
    (words : NamesIn (fun text => Keyword.ofText? text = none) tree.yield)
    (words' : NamesIn (fun text => Keyword.ofText? text = none) (tree.rename newName).yield)
    (admissible : tree.Admissible) : (tree.rename newName).Admissible where
  counts storage := by
    rw [tree.declarations_rename, Declaration.count_map_rename]
    exact admissible.counts storage
  subroutines := by
    refine List.forall_mem_map.2 fun subroutine member => ?_
    have ⟨counts, demands⟩ := admissible.subroutines subroutine member
    refine ⟨?_, subroutine.body.met_rename (renamable.renames words words' member) demands⟩
    intro storage
    show Declaration.count ((subroutine.rename tree.name tree.declarations newName).declarations
      tree.name) storage ≤ maxCount
    rw [Subroutine.declarations_rename, Declaration.count_append, Declaration.count_map_rename,
      ← Declaration.count_append, ← List.append_assoc]
    exact counts storage

/-- A subroutine has the same code under other names, as a part of its class. -/
theorem code_subroutine (renamable : tree.Renamable newName)
    (words : NamesIn (fun text => Keyword.ofText? text = none) tree.yield)
    (words' : NamesIn (fun text => Keyword.ofText? text = none) (tree.rename newName).yield)
    (member : subroutine ∈ tree.subroutines) (label : Nat → Label) (number : Nat) :
    (subroutine.rename tree.name tree.declarations newName).code tree.name
        (tree.rename newName).declarations label number =
      subroutine.code tree.name tree.declarations label number := by
  have body : (subroutine.rename tree.name tree.declarations newName).body.code
      ((subroutine.rename tree.name tree.declarations newName).environment tree.name
        (tree.rename newName).declarations) label number =
      subroutine.body.code (subroutine.environment tree.name tree.declarations) label number :=
    subroutine.body.code_rename (renamable.renames words words' member)
  rw [Subroutine.code, Subroutine.code, body, Subroutine.localDeclarations_rename,
    List.length_map, tree.declarations_rename, Declaration.count_map_rename]
  rfl

end ClassDeclaration.Renamable

/-- Subroutines that are replaced by others with the same code leave all code as it is. -/
theorem subroutinesCode_map {className : String}
    {ofClass ofClass' : List (Declaration ClassStorage)} {label : Nat → Label}
    {replace : Subroutine → Subroutine} {subroutines : List Subroutine}
    (same : ∀ subroutine ∈ subroutines, ∀ number, (replace subroutine).code className ofClass' label
      number = subroutine.code className ofClass label number)
    (counts : ∀ subroutine ∈ subroutines,
      (replace subroutine).body.labelCount = subroutine.body.labelCount) (number : Nat) :
    subroutinesCode className ofClass' label number (subroutines.map replace) =
        subroutinesCode className ofClass label number subroutines ∧
      labelCount (subroutines.map replace) = labelCount subroutines := by
  induction subroutines generalizing number with
  | nil => exact ⟨rfl, rfl⟩
  | cons first others inductionHypothesis =>
      obtain ⟨sameFirst, sameOthers⟩ := List.forall_mem_cons.1 same
      obtain ⟨countFirst, countOthers⟩ := List.forall_mem_cons.1 counts
      have ⟨codes, labels⟩ := inductionHypothesis sameOthers countOthers
        (number + first.body.labelCount)
      rw [List.map_cons, subroutinesCode, subroutinesCode, labelCount, labelCount, sameFirst,
        countFirst, codes, labels]
      exact ⟨rfl, rfl⟩

end Grammar

/-! ## Compilation -/

section Compilers

variable {σ : Type} [LabelSource σ] {start labels : σ} {unit unit' source source' : String}
  {compiled : CompiledUnit} {tree : ClassDeclaration} {newName : String → String}

/-- A class that compiles also does so with its variables renamed, and to the same class name and
code, with the same labels drawn. A source of the renamed class has tokens for the new names, so
these are identifiers and no reserved words; they may be those of types, classes and subroutines. -/
theorem compile_rename (fits : source.utf8ByteSize ≤ Span.maxOffset)
    (fits' : source'.utf8ByteSize ≤ Span.maxOffset) (isTree : tree.IsTreeOf source)
    (success : compile start unit source = (.ok compiled, labels))
    (renamable : tree.Renamable newName) (isTree' : (tree.rename newName).IsTreeOf source') :
    compile start unit' source' = (.ok compiled, labels) := by
  obtain ⟨other, isOther, admissible, name, isCode, stands⟩ :=
    tree_of_compile (LabelSource.numbering start) fits (LabelSource.numbering_stands start) success
  obtain rfl := isOther.unique isTree
  have words := isTree.names
  have words' := isTree'.names
  have ⟨codes, counts⟩ := subroutinesCode_map
    (fun subroutine member number => renamable.code_subroutine words words' member
      (LabelSource.numbering start).label number)
    (fun subroutine _ => subroutine.body.labelCount_rename) 0
  have drawn : LabelSource.drawn? start (0 + labelCount other.subroutines) = some labels := stands
  rw [Nat.zero_add, ← counts] at drawn
  obtain ⟨compiled', success', name', isCode'⟩ :=
    compile_of_tree unit' fits' isTree' (renamable.admissible words words' admissible) drawn
  have same : compiled' = compiled := by
    have code : compiled'.code = compiled.code :=
      Code.toList_injective (isCode'.trans (codes.trans isCode.symm))
    obtain ⟨_, _⟩ := compiled
    obtain ⟨_, _⟩ := compiled'
    cases code
    cases name
    cases name'
    rfl
  rw [success', same]

end Compilers

/-- Variables that are declared twice, as a field and a local variable and as two parameters, with
new names that are those of their method and of their type. -/
theorem compile_rename_of_method :
    ∃ (tree : ClassDeclaration) (newName : String → String) (source source' : String)
      (compiled : CompiledUnit),
      tree.IsTreeOf source ∧ (tree.rename newName).IsTreeOf source' ∧ tree.Renamable newName ∧
      tree.variables = ["x", "y", "y", "x"] ∧
      (tree.rename newName).variables = ["g", "P", "P", "g"] ∧
      compiled.code.toList = [.function "P.g" 1, .push .argument 0, .pop .pointer 0,
        .push .argument 2, .pop .local 0, .push .local 0, .push .argument 2, .call "P.g" 2,
        .call "Q.h" 1, .return] ∧
      compile ({} : LabelCounter) "P" source = (.ok compiled, {}) ∧
      compile ({} : LabelCounter) "P" source' = (.ok compiled, {}) := by
  let source :=
    "class P\x7bfield P x;method P g(P y,P y)\x7bvar P x;let x=y;return Q.h(x.g(y));\x7d\x7d"
  let source' :=
    "class P\x7bfield P g;method P g(P P,P P)\x7bvar P g;let g=P;return Q.h(g.g(P));\x7d\x7d"
  let used (name : String) : Expression := .mk (.name name) .nil
  let call : Call :=
    .qualified "Q" "h" (.cons (.mk (.call (.qualified "x" "g" (.cons (used "y") .nil))) .nil) .nil)
  let body : Statements :=
    .cons (.assign "x" (used "y")) (.cons (.return (some (.mk (.call call) .nil))) .nil)
  let tree : ClassDeclaration :=
    ⟨"P", [⟨.field, ⟨.named "P", "x", []⟩⟩],
      [⟨.method, some (.named "P"), "g", [⟨.named "P", "y"⟩, ⟨.named "P", "y"⟩],
        [⟨.named "P", "x", []⟩], body⟩]⟩
  let newName (name : String) : String := if name = "x" then "g" else "P"
  have fits : source.utf8ByteSize ≤ Span.maxOffset := by decide +kernel
  have isTree : tree.IsTreeOf source := by decide +kernel
  have isTree' : (tree.rename newName).IsTreeOf source' := by decide +kernel
  have admissible : tree.Admissible := by
    refine ⟨fun storage => ?_, List.forall_mem_singleton.2 ⟨fun storage => ?_, by decide +kernel⟩⟩
    · cases storage <;> decide +kernel
    · cases storage <;> decide +kernel
  have drawn : LabelSource.drawn? ({} : LabelCounter) (labelCount tree.subroutines) = some {} := rfl
  obtain ⟨compiled, success, _, isCode⟩ := compile_of_tree "P" fits isTree admissible drawn
  have injective : ∀ first ∈ tree.variables, ∀ second ∈ tree.variables,
      newName first = newName second → first = second := by decide +kernel
  have renamable : tree.Renamable newName :=
    ⟨fun first inFirst second inSecond => injective first inFirst second inSecond,
      by decide +kernel⟩
  exact ⟨tree, newName, source, source', compiled, isTree, isTree', renamable,
    by decide +kernel, by decide +kernel, isCode.trans (by decide +kernel), success,
    compile_rename fits (by decide +kernel) isTree success renamable isTree'⟩

end JackCompiler
