import JackCompiler.Proofs.Comparison.Breakdowns
import JackCompiler.Proofs.Prediction.Classes

/-!
# What compilers make of what was foretold

A source that lexes compiles exactly if there is no error in its terminals; otherwise it is rejected
with their first error, at the token that the error is about. Not more labels are drawn than the
words of choices and loops ask for.
-/

namespace JackCompiler

open Grammar

namespace Prediction

section Tallies

variable {source unit : String} {stream : TokenStream} {terminals : List Terminal}

/-- What is foretold of the pass over a stream. -/
def forecast (source : String) (stream : TokenStream) (terminals : List Terminal) : Forecast where
  context := ⟨source, stream.size + 1⟩
  start := stream
  refusal? := fault? terminals
  draws := allDraws terminals

/-- Before anything is read, all terminals are to come and no names are known. -/
theorem at_start (lexed : TokenStream.ofText source = .ok stream)
    (shown : stream.terminals? source = some terminals) :
    At (forecast source stream terminals) noNames 0 terminals ⟨stream, ⟨0⟩, .empty, ""⟩ := by
  have start := TokenStream.start_of_ofText lexed
  refine ⟨rfl, rfl, ?_, ?_, ⟨rfl, rfl, .empty, .empty⟩, ?_⟩
  · simp [start.1]
  · unfold TokenStream.terminals? at shown
    rw [start.2] at shown
    exact TokenStream.Reads.exists_end shown
  · simp [forecast]

/-- Whether the outcome of a compilation is what was foretold. -/
def ComesTrue (unit source : String) (stream : TokenStream) (outcome : Except Failure CompiledUnit) :
    Option Refusal → Prop
  | none => ∃ compiled, outcome = .ok compiled
  | some refusal => ∃ position,
      (stream.spanAt refusal.place).position? source = some position ∧
        outcome = .error (.error ⟨unit, position, refusal.error⟩)

/-- A source that lexes compiles as the pass over its tokens ends. -/
theorem compile_of_lexed {σ : Type} [LabelSource σ] (labels : σ) (unit : String)
    (lexed : TokenStream.ofText source = .ok stream) :
    compile labels unit source =
      match Pass.classDeclaration.run ⟨source, stream.size + 1⟩ ⟨stream, labels, .empty, ""⟩ with
      | .done code state => (.ok ⟨state.className, code⟩, state.labels)
      | .halted reason state => (.error (Failure.ofHalt unit source reason), state.labels) := by
  unfold compile
  rw [lexed]
  simp only [compileTokens]
  cases Pass.classDeclaration.run ⟨source, stream.size + 1⟩ ⟨stream, labels, .empty, ""⟩ <;> rfl

/-- An error has a position unless its span is not in the source. -/
theorem ofCause_cases (unit source : String) (cause : Located ErrorKind) :
    (∃ position, cause.span.position? source = some position ∧
      Failure.ofCause unit source cause = .error ⟨unit, position, cause.value⟩) ∨
    Failure.ofCause unit source cause = .broken .spanOutsideText := by
  unfold Failure.ofCause Error.locate?
  cases cause.span.position? source with
  | none => exact .inr rfl
  | some position => exact .inl ⟨position, rfl, rfl⟩

/-- On a tally what was foretold comes true. -/
theorem comesTrue_of_tally (unit : String) (fits : source.utf8ByteSize ≤ Span.maxOffset)
    (lexed : TokenStream.ofText source = .ok stream)
    (shown : stream.terminals? source = some terminals) :
    (compile (⟨0⟩ : Tally) unit source).2.count ≤ allDraws terminals ∧
      ComesTrue unit source stream (compile (⟨0⟩ : Tally) unit source).1 (fault? terminals) := by
  have unbroken (breakdown : Breakdown) :
      (compile (⟨0⟩ : Tally) unit source).1 ≠ .error (.broken breakdown) := fun broken =>
    plenty_of_tally ⟨0⟩ unit source (breakdown_of_compile fits broken ▸ broken)
  have fulfilled := Pass.fulfils_classDeclaration (at_start lexed shown) rfl
  unfold Pass.Fulfils at fulfilled
  dsimp only [forecast] at fulfilled
  rw [compile_of_lexed (⟨0⟩ : Tally) unit lexed] at unbroken ⊢
  generalize Pass.classDeclaration.run ⟨source, stream.size + 1⟩
    (⟨stream, ⟨0⟩, .empty, ""⟩ : PassState Tally) = result at fulfilled unbroken ⊢
  cases result with
  | done code state =>
      obtain ⟨sound, draws⟩ := fulfilled
      rw [sound]
      exact ⟨draws, _, rfl⟩
  | halted reason state =>
      cases reason with
      | broken breakdown => exact absurd rfl (unbroken breakdown)
      | rejected cause =>
          obtain ⟨draws, refusal, foretold, rfl⟩ := fulfilled
          rw [show fault? terminals = some refusal from foretold]
          rcases ofCause_cases unit source
              ((stream.spanAt refusal.place).locate refusal.error) with
            ⟨position, located, same⟩ | outside
          · exact ⟨draws, position, located, congrArg Except.error same⟩
          · exact absurd (congrArg Except.error outside) (unbroken _)

end Tallies

section Compilers

variable {σ : Type} [LabelSource σ] {source unit : String} {stream : TokenStream}
  {terminals : List Terminal}

/-- Not more labels are wanted than the words of choices and loops ask for. -/
theorem labelsWanted_le (fits : source.utf8ByteSize ≤ Span.maxOffset)
    (lexed : TokenStream.ofText source = .ok stream)
    (shown : stream.terminals? source = some terminals) :
    labelsWanted source ≤ allDraws terminals :=
  (comesTrue_of_tally "" fits lexed shown).1

/-- With labels enough what was foretold comes true. -/
theorem comesTrue_of_plenty {labels : σ} (fits : source.utf8ByteSize ≤ Span.maxOffset)
    (lexed : TokenStream.ofText source = .ok stream)
    (shown : stream.terminals? source = some terminals)
    (plenty : (compile labels unit source).1 ≠ .error (.broken .labelsExhausted)) :
    ComesTrue unit source stream (compile labels unit source).1 (fault? terminals) := by
  have tallied := (comesTrue_of_tally unit fits lexed shown).2
  rcases compile_cases labels unit source with ⟨_, _, same⟩ | ⟨_, exhausted, _⟩
  · generalize fault? terminals = foretold at tallied ⊢
    cases foretold with
    | none =>
        obtain ⟨compiled, success⟩ := tallied
        cases outcome : (compile labels unit source).1 with
        | ok compiled => exact ⟨compiled, rfl⟩
        | error failure =>
            rw [outcome, success] at same
            cases same
    | some refusal =>
        obtain ⟨position, located, failed⟩ := tallied
        refine ⟨position, located, ?_⟩
        rw [failed] at same
        cases outcome : (compile labels unit source).1 with
        | ok compiled =>
            rw [outcome] at same
            cases same
        | error failure =>
            rw [outcome] at same
            exact congrArg Except.error (Except.error.inj same)
  · exact absurd exhausted plenty

end Compilers

/-! ## Labels of trees -/

section Draws

@[simp] theorem allDraws_nil : allDraws [] = 0 := rfl

/-- The first terminal draws its labels, and the others draw theirs. -/
@[simp] theorem allDraws_cons (first : Terminal) (others : List Terminal) :
    allDraws (first :: others) = draws first + allDraws others := rfl

/-- Two stretches of terminals draw the labels of both. -/
@[simp] theorem allDraws_append (left right : List Terminal) :
    allDraws (left ++ right) = allDraws left + allDraws right := by
  induction left with
  | nil => exact (Nat.zero_add _).symm
  | cons first others inductionHypothesis => simp [inductionHypothesis, Nat.add_assoc]

@[simp] theorem draws_mark (sign : Punctuation) : draws (.mark sign) = 0 := rfl

@[simp] theorem draws_name (text : String) : draws (.name text) = 0 := rfl

/-- Phrases that ask for no labels do not ask for any together. -/
theorem allDraws_flatMap {α : Type} {phrase : α → List Terminal} (list : List α)
    (each : ∀ item, allDraws (phrase item) = 0) : allDraws (list.flatMap phrase) = 0 := by
  induction list with
  | nil => rfl
  | cons first others inductionHypothesis => simp [each, inductionHypothesis]

mutual

/-- Expressions draw no labels. -/
theorem allDraws_expression (expression : Expression) : allDraws expression.yield = 0 := by
  cases expression with
  | mk first others =>
      simp [Expression.yield, allDraws_term first, allDraws_operands others]

/-- Operands draw no labels. -/
theorem allDraws_operands (operands : Operands) : allDraws operands.yield = 0 := by
  cases operands with
  | nil => rfl
  | cons operator operand others =>
      simp [Operands.yield, allDraws_term operand, allDraws_operands others]

/-- Terms draw no labels. -/
theorem allDraws_term (term : Term) : allDraws term.yield = 0 := by
  cases term with
  | integer value => rfl
  | string contents => rfl
  | constant value => cases value <;> rfl
  | name text => rfl
  | element array index => simp [Term.yield, allDraws_expression index]
  | call call => exact allDraws_call call
  | group inner => simp [Term.yield, allDraws_expression inner]
  | unary operator operand => simp [Term.yield, allDraws_term operand]

/-- Calls draw no labels. -/
theorem allDraws_call (call : Call) : allDraws call.yield = 0 := by
  cases call with
  | own subroutine arguments => simp [Call.yield, (allDraws_arguments arguments).1]
  | qualified owner subroutine arguments =>
      simp [Call.yield, (allDraws_arguments arguments).1]

/-- Arguments draw no labels. -/
theorem allDraws_arguments (arguments : Arguments) :
    allDraws arguments.yield = 0 ∧ allDraws arguments.following = 0 := by
  cases arguments with
  | nil => exact ⟨rfl, rfl⟩
  | cons first others =>
      simp [Arguments.yield, Arguments.following, allDraws_expression first,
        (allDraws_arguments others).2]

end

mutual

/-- A statement draws two labels for each choice and each loop in it. -/
theorem allDraws_statement (statement : Statement) :
    allDraws statement.yield = statement.labelCount := by
  cases statement with
  | assign target value =>
      simp [Statement.yield, Statement.labelCount, draws, allDraws_expression]
  | assignElement array index value =>
      simp [Statement.yield, Statement.labelCount, draws, allDraws_expression]
  | choice test body alternative =>
      simp [Statement.yield, Statement.labelCount, draws, allDraws_expression,
        allDraws_statements body, allDraws_alternative alternative, Nat.add_assoc]
  | loop test body =>
      simp [Statement.yield, Statement.labelCount, draws, allDraws_expression,
        allDraws_statements body]
  | perform call => simp [Statement.yield, Statement.labelCount, draws, allDraws_call]
  | «return» value =>
      cases value <;> simp [Statement.yield, Statement.labelCount, draws, allDraws_expression]

/-- Statements draw the labels of each of them. -/
theorem allDraws_statements (statements : Statements) :
    allDraws statements.yield = statements.labelCount := by
  cases statements with
  | nil => rfl
  | cons first others =>
      simp [Statements.yield, Statements.labelCount, allDraws_statement first,
        allDraws_statements others]

/-- An alternative draws the labels of its block. -/
theorem allDraws_alternative (alternative : Alternative) :
    allDraws alternative.yield = alternative.labelCount := by
  cases alternative with
  | absent => rfl
  | present body =>
      simp [Alternative.yield, Alternative.labelCount, draws, allDraws_statements body]

end

theorem draws_type (type : TypeName) : draws type.terminal = 0 := by
  cases type <;> rfl

/-- Declarations draw no labels. -/
theorem allDraws_variables (group : Variables) : allDraws group.yield = 0 := by
  simp [Variables.yield, draws_type, allDraws_flatMap]

/-- A subroutine draws the labels of its body. -/
theorem allDraws_subroutine (subroutine : Subroutine) :
    allDraws subroutine.yield = subroutine.body.labelCount := by
  have word : draws (.keyword subroutine.kind.word) = 0 := by cases subroutine.kind <;> rfl
  have result : draws (resultTerminal subroutine.result) = 0 := by
    cases subroutine.result with
    | none => rfl
    | some type => exact draws_type type
  have each (parameter : Parameter) : allDraws parameter.yield = 0 := by
    simp [Parameter.yield, draws_type]
  have parameters : allDraws (parametersYield subroutine.parameters) = 0 := by
    cases subroutine.parameters with
    | nil => rfl
    | cons first others => simp [parametersYield, each, allDraws_flatMap]
  have locals : allDraws (localsYield subroutine.locals) = 0 :=
    allDraws_flatMap _ fun group => (Nat.zero_add _).trans (allDraws_variables group)
  simp [Subroutine.yield, word, result, parameters, locals, allDraws_statements]

/-- Subroutines draw the labels of each of them. -/
theorem allDraws_subroutines (subroutines : List Subroutine) :
    allDraws (subroutines.flatMap Subroutine.yield) = labelCount subroutines := by
  induction subroutines with
  | nil => rfl
  | cons first others inductionHypothesis =>
      simp [labelCount, allDraws_subroutine, inductionHypothesis]

/-- A class asks for as many labels as its subroutines draw. -/
theorem allDraws_class (tree : ClassDeclaration) :
    allDraws tree.yield = labelCount tree.subroutines := by
  have groups : allDraws (tree.groups.flatMap ClassVariables.yield) = 0 := by
    refine allDraws_flatMap _ fun declared => ?_
    rw [ClassVariables.yield, allDraws_cons, allDraws_variables]
    cases declared.storage <;> rfl
  have word : draws (.keyword .class) = 0 := rfl
  simp [ClassDeclaration.yield, groups, word, allDraws_subroutines]

/-- Not more labels are wanted than the tree of a class draws. -/
theorem labelsWanted_le_labelCount {source : String} {tree : ClassDeclaration}
    (fits : source.utf8ByteSize ≤ Span.maxOffset) (isTree : tree.IsTreeOf source) :
    labelsWanted source ≤ labelCount tree.subroutines := by
  obtain ⟨stream, lexed, shown⟩ := isTree
  rw [← allDraws_class]
  exact labelsWanted_le fits lexed shown

end Draws

end Prediction

end JackCompiler
