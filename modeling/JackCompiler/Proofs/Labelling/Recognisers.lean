import JackCompiler.Compilation.Class
import JackCompiler.Proofs.Labelling.Tally

/-!
# Recognisers with labels of different sources

Each recogniser does the same on a tally and on any other source. The cases follow the definitions;
the values of parts are code, of which nothing is looked at, or else the same for both.
-/

namespace JackCompiler

namespace Pass

variable {τ : Type} [LabelSource τ] {first : τ}

/-! ## Expressions -/

section Expressions

variable {tallied : Pass Tally Code} {part : Pass τ Code}

theorem follows_nextOperator? : Follows first id nextOperator? nextOperator? := by
  refine follows_peek?.bindSame ?_
  rintro (_ | token)
  · exact follows_pure rfl
  · exact follows_pure rfl

/-- Expressions follow each other if their terms do. -/
theorem follows_expressionOf (term : Follows first (fun _ => ()) tallied part) :
    Follows first (fun _ => ()) (expressionOf tallied) (expressionOf part) := by
  refine term.bind fun left right _ => follows_iterate (fun _ => ()) ?_ rfl
  intro left right _
  refine follows_nextOperator?.bindSame ?_
  rintro (_ | operator)
  · exact follows_pure rfl
  · exact follows_advance.bindSame fun _ => term.bind fun _ _ _ => follows_pure rfl

/-- Of a list of arguments the number is the same for both. -/
theorem follows_expressionList (expression : Follows first (fun _ => ()) tallied part) :
    Follows first Prod.snd (expressionList tallied) (expressionList part) := by
  refine (follows_nextSatisfies _).bindSame ?_
  rintro (_ | _)
  · refine follows_separated Prod.snd ?_ rfl
    rintro ⟨left, count⟩ ⟨right, _⟩ rfl
    refine expression.bind fun _ _ _ => ?_
    exact (follows_sum _ _ _).bindSame fun _ => follows_pure rfl
  · exact follows_pure rfl

/-- Arguments follow each other if expressions do, and there are as many of them. -/
theorem follows_arguments (expression : Follows first (fun _ => ()) tallied part) :
    Follows first Prod.snd (arguments tallied) (arguments part) := by
  refine (follows_expectMark _).bindSame fun _ => ?_
  refine (follows_expressionList expression).bind fun left right same => ?_
  exact follows_closed same

/-- Calls follow each other if expressions do. -/
theorem follows_subroutineCall (expression : Follows first (fun _ => ()) tallied part) :
    Follows first (fun _ => ()) (subroutineCall tallied) (subroutineCall part) := by
  refine follows_name.bindSame fun owner => (follows_take _).bindSame ?_
  rintro (_ | _)
  · refine (follows_arguments expression).bind ?_
    rintro ⟨left, count⟩ ⟨right, _⟩ rfl
    refine (follows_sum _ _ _).bindSame fun count => ?_
    exact follows_className.bindSame fun _ => follows_pure rfl
  · refine follows_name.bindSame fun subroutine => (follows_lookup? owner).bindSame ?_
    rintro (_ | receiver)
    · exact (follows_arguments expression).bind fun _ _ _ => follows_pure rfl
    · refine (follows_arguments expression).bind ?_
      rintro ⟨left, count⟩ ⟨right, _⟩ rfl
      exact (follows_sum _ _ _).bindSame fun count => follows_pure rfl

/-- Elements of arrays follow each other if expressions do. -/
theorem follows_arrayElement (expression : Follows first (fun _ => ()) tallied part)
    (array : Variable) :
    Follows first (fun _ => ()) (arrayElement tallied array) (arrayElement part array) := by
  exact follows_advance.bindSame fun _ => expression.bind fun _ _ _ => follows_closed rfl

/-- Terms that begin with a name follow each other if expressions do. -/
theorem follows_nameTerm (expression : Follows first (fun _ => ()) tallied part) (token : Token) :
    Follows first (fun _ => ()) (nameTerm tallied token) (nameTerm part token) := by
  refine follows_peek?.bindSame fun next => ?_
  split
  · exact (follows_resolve token).bindSame (follows_arrayElement expression)
  · exact follows_unread.bindSame fun _ => follows_subroutineCall expression
  · exact follows_unread.bindSame fun _ => follows_subroutineCall expression
  · exact (follows_resolve token).bindSame fun _ => follows_pure rfl

/-- The code of a string is the same, for it has no labels. -/
theorem follows_stringTerm (token : Token) :
    Follows first (fun _ => ()) (stringTerm token) (stringTerm token) := by
  refine follows_context fun context => (follows_required _).bindSame fun text => ?_
  cases Code.stringConstant? text with
  | some code => exact follows_pure rfl
  | none => exact follows_breakOff nofun

/-- Terms of any depth follow each other, by induction on the depth. -/
theorem follows_term (depth : Nat) : Follows first (fun _ => ()) (term depth) (term depth) := by
  induction depth with
  | zero => exact follows_breakOff nofun
  | succ depth inductionHypothesis =>
      have inner := follows_expressionOf inductionHypothesis
      refine follows_advance.bindSame fun token => ?_
      cases KeywordConstant.ofKind? token.kind with
      | some constant => exact follows_pure rfl
      | none =>
          cases UnaryOperator.ofKind? token.kind with
          | some operator => exact inductionHypothesis.bind fun _ _ _ => follows_pure rfl
          | none =>
              cases token.kind with
              | integer value => exact follows_pure rfl
              | string => exact follows_stringTerm token
              | identifier => exact follows_nameTerm inner token
              | punctuation mark =>
                  cases mark with
                  | leftParen => exact inner.bind fun _ _ _ => follows_closed rfl
                  | _ => exact follows_reject _ _
              | _ => exact follows_reject _ _

/-- Expressions follow each other. -/
theorem follows_expression : Follows first (fun _ => ()) expression expression :=
  follows_context fun context => follows_expressionOf (follows_term context.bound)

end Expressions

/-! ## Statements -/

section Statements

variable {tallied : Pass Tally Code} {part : Pass τ Code}

/-- Tests follow each other. -/
theorem follows_condition : Follows first (fun _ => ()) condition condition := by
  refine (follows_expectMark _).bindSame fun _ => follows_expression.bind fun _ _ _ => ?_
  exact follows_closed rfl

/-- Blocks follow each other if statements do. -/
theorem follows_blockOf (statements : Follows first (fun _ => ()) tallied part) :
    Follows first (fun _ => ()) (blockOf tallied) (blockOf part) := by
  exact (follows_expectMark _).bindSame fun _ => statements.bind fun _ _ _ => follows_closed rfl

theorem follows_elementAssignment (array : Variable) :
    Follows first (fun _ => ()) (elementAssignment array) (elementAssignment array) := by
  refine follows_expression.bind fun _ _ _ => (follows_expectMark _).bindSame fun _ => ?_
  refine (follows_expectMark _).bindSame fun _ => follows_expression.bind fun _ _ _ => ?_
  exact follows_pure rfl

theorem follows_variableAssignment (target : Variable) :
    Follows first (fun _ => ()) (variableAssignment target) (variableAssignment target) := by
  refine (follows_expectMark _).bindSame fun _ => follows_expression.bind fun _ _ _ => ?_
  exact follows_pure rfl

/-- Assignments follow each other. -/
theorem follows_letStatement : Follows first (fun _ => ()) letStatement letStatement := by
  refine (follows_expect _).bindSame fun token => (follows_resolve token).bindSame fun target => ?_
  refine (follows_take _).bindSame ?_
  rintro (_ | _)
  · exact (follows_variableAssignment target).bind fun _ _ _ => follows_closed rfl
  · exact (follows_elementAssignment target).bind fun _ _ _ => follows_closed rfl

/-- Choices draw two labels each, and follow each other if their blocks do. -/
theorem follows_ifStatement (block : Follows first (fun _ => ()) tallied part) :
    Follows first (fun _ => ()) (ifStatement tallied) (ifStatement part) := by
  refine follows_draw.bind fun _ _ _ => follows_draw.bind fun _ _ _ => ?_
  refine follows_condition.bind fun _ _ _ => block.bind fun _ _ _ => ?_
  refine (follows_take _).bindSame ?_
  rintro (_ | _)
  · exact follows_pure rfl
  · exact block.bind fun _ _ _ => follows_pure rfl

/-- Loops draw two labels each, and follow each other if their blocks do. -/
theorem follows_whileStatement (block : Follows first (fun _ => ()) tallied part) :
    Follows first (fun _ => ()) (whileStatement tallied) (whileStatement part) := by
  refine follows_draw.bind fun _ _ _ => follows_draw.bind fun _ _ _ => ?_
  exact follows_condition.bind fun _ _ _ => block.bind fun _ _ _ => follows_pure rfl

/-- Calls as statements follow each other. -/
theorem follows_doStatement : Follows first (fun _ => ()) doStatement doStatement := by
  exact (follows_subroutineCall follows_expression).bind fun _ _ _ => follows_closed rfl

/-- Returns follow each other. -/
theorem follows_returnStatement : Follows first (fun _ => ()) returnStatement returnStatement := by
  refine (follows_take _).bindSame ?_
  rintro (_ | _)
  · exact follows_expression.bind fun _ _ _ => follows_closed rfl
  · exact follows_pure rfl

/-- Statements follow each other if their blocks do. -/
theorem follows_statementsOf (block : Follows first (fun _ => ()) tallied part) :
    Follows first (fun _ => ()) (statementsOf tallied) (statementsOf part) := by
  refine follows_iterate (fun _ => ()) ?_ rfl
  intro left right _
  refine follows_advance.bindSame fun token => ?_
  split
  · exact follows_letStatement.bind fun _ _ _ => follows_pure rfl
  · exact (follows_ifStatement block).bind fun _ _ _ => follows_pure rfl
  · exact (follows_whileStatement block).bind fun _ _ _ => follows_pure rfl
  · exact follows_doStatement.bind fun _ _ _ => follows_pure rfl
  · exact follows_returnStatement.bind fun _ _ _ => follows_pure rfl
  · exact follows_unread.bindSame fun _ => follows_pure rfl

/-- Statements of any depth follow each other, by induction on the depth. -/
theorem follows_statementsWithin (depth : Nat) :
    Follows first (fun _ => ()) (statementsWithin depth) (statementsWithin depth) := by
  induction depth with
  | zero => exact follows_breakOff nofun
  | succ depth inductionHypothesis =>
      exact follows_statementsOf (follows_blockOf inductionHypothesis)

/-- Statements follow each other. -/
theorem follows_statements : Follows first (fun _ => ()) statements statements :=
  follows_context fun context => follows_statementsWithin context.bound

end Statements

/-! ## Classes -/

/-- Variables of a class are the same. -/
theorem follows_classVariables : Follows first id classVariables classVariables := by
  refine (follows_expectAny _).bindSame fun keyword => follows_typeName.bindSame fun type => ?_
  refine (follows_separated id ?_ rfl).bindSame fun _ => follows_expectMark _
  intro left right _
  exact follows_name.bindSame fun name => follows_defineInClass name type _

/-- Parameters are the same. -/
theorem follows_parameters : Follows first id parameters parameters := by
  refine (follows_expectMark _).bindSame fun _ => (follows_take _).bindSame ?_
  rintro (_ | _)
  · refine (follows_separated id ?_ rfl).bindSame fun _ => follows_expectMark _
    intro left right _
    refine follows_typeName.bindSame fun type => follows_name.bindSame fun name => ?_
    exact follows_defineInSubroutine _ name type _
  · exact follows_pure rfl

/-- Local variables of one type are the same. -/
theorem follows_localVariables : Follows first id localVariables localVariables := by
  refine (follows_expect _).bindSame fun _ => follows_typeName.bindSame fun type => ?_
  refine (follows_separated id ?_ rfl).bindSame fun count => ?_
  · intro count other same
    obtain rfl : count = other := same
    refine follows_name.bindSame fun name => ?_
    refine (follows_defineInSubroutine _ name type _).bindSame fun _ => ?_
    split
    · exact follows_breakOff nofun
    · exact follows_pure rfl
  · exact follows_closed rfl

/-- All local variables are the same. -/
theorem follows_allLocalVariables : Follows first id allLocalVariables allLocalVariables := by
  refine follows_whileNext id _ ?_ rfl
  intro count other same
  obtain rfl : count = other := same
  exact follows_localVariables.bindSame fun more => follows_sum _ count more

/-- Of the body of a subroutine the number of locals is the same for both. -/
theorem follows_subroutineBody : Follows first Prod.fst subroutineBody subroutineBody := by
  refine (follows_expectMark _).bindSame fun _ => ?_
  refine follows_allLocalVariables.bindSame fun locals => ?_
  exact follows_statements.bind fun _ _ _ => follows_closed rfl

/-- What comes last in a subroutine looks at the scope, but yields only code. -/
theorem follows_finish {finish : PassState Tally → Code} {finish' : PassState τ → Code} :
    Follows first (fun _ => ()) (state >>= fun current => pure (finish current))
      (state >>= fun current => pure (finish' current)) :=
  follows_state (fun _ _ => Nat.le_refl _) fun _ _ _ abreast => .done rfl abreast

/-- Subroutines follow each other. -/
theorem follows_subroutine : Follows first (fun _ => ()) subroutine subroutine := by
  refine (follows_expectAny _).bindSame fun keyword => follows_openSubroutine.bindSame fun _ => ?_
  refine (follows_expectAny _).bindSame fun _ => follows_name.bindSame fun ownName => ?_
  refine follows_className.bindSame fun owner => ?_
  split
  · refine (follows_defineInSubroutine _ _ _ _).bindSame fun _ => follows_parameters.bindSame ?_
    exact fun _ => follows_subroutineBody.bind fun _ _ _ => follows_finish
  · refine follows_parameters.bindSame fun _ => ?_
    exact follows_subroutineBody.bind fun _ _ _ => follows_finish

theorem follows_setClassName (className : String) :
    Follows first id (setClassName className) (setClassName className) := by
  refine follows_state (fun _ _ => Nat.le_refl _) ?_
  rintro context before start ⟨stream, scope, _, labels⟩
  exact .done rfl ⟨stream, scope, rfl, labels⟩

/-- Classes follow each other. -/
theorem follows_classDeclaration :
    Follows first (fun _ => ()) classDeclaration classDeclaration := by
  refine (follows_expect _).bindSame fun _ => follows_name.bindSame fun name => ?_
  refine (follows_setClassName name).bindSame fun _ => (follows_expectMark _).bindSame fun _ => ?_
  refine (follows_whileNext id _ (fun _ _ _ => follows_classVariables) rfl).bindSame
    fun _ => ?_
  refine (follows_whileNext (fun _ => ()) _ ?_ rfl).bind fun left right _ => ?_
  · exact fun _ _ _ => follows_subroutine.bind fun _ _ _ => follows_pure rfl
  · refine (follows_expectMark _).bindSame fun _ => follows_peek?.bindSame ?_
    rintro (_ | token)
    · exact follows_pure rfl
    · exact follows_reject _ _

end Pass

end JackCompiler
