import JackCompiler.Diagnostic
import JackCompiler.Proofs.Generation.Generate
import JackCompiler.Proofs.Grammar.Follow

/-!
# What the terminals foretell

Whether a sequence of terminals is refused, where and why, is settled without any code, by goals on
a stack: what is still to be read at some place. A goal looks at the next terminal alone, reads it
and puts further goals in its place, needs nothing to be read, or refuses it. What names stand for
is kept along.

Goals that end in a mark of their own take it along: the goal for the statements of a block is met
by its closing brace. So nearly every goal reads a terminal. Only behind a term and behind a name
can there be nothing to read.
-/

namespace JackCompiler

namespace Prediction

open Grammar

/-! ## Declarations -/

/-- What is known of names: the class, and the declarations of both scopes in their order. -/
structure Names where
  className : String
  ofClass : List (Declaration ClassStorage)
  ofSubroutine : List (Declaration SubroutineStorage)

/-- What a declaration declares. -/
inductive Role
  | ofClass (storage : ClassStorage)
  | parameter
  | local
  deriving DecidableEq

/-- What declarations of a kind are counted as. -/
def Role.items : Role → Countable
  | ofClass _ => .classVariables
  | parameter => .parameters
  | .local => .localVariables

namespace Names

variable (names : Names)

/-- What names stand for. -/
def environment : Environment :=
  .ofDeclarations names.className names.ofClass.reverse names.ofSubroutine.reverse

/-- How many declarations have the storage class of a role. -/
def count : Role → Nat
  | .ofClass storage => Declaration.count names.ofClass storage
  | .parameter => Declaration.count names.ofSubroutine .argument
  | .local => Declaration.count names.ofSubroutine .local

/-- One more declaration. -/
def declare (name type : String) : Role → Names
  | .ofClass storage => { names with ofClass := names.ofClass ++ [⟨name, type, storage⟩] }
  | .parameter => { names with ofSubroutine := names.ofSubroutine ++ [⟨name, type, .argument⟩] }
  | .local => { names with ofSubroutine := names.ofSubroutine ++ [⟨name, type, .local⟩] }

/-- A declaration counts in its own role alone. -/
theorem count_declare (name type : String) (role counted : Role) :
    (names.declare name type role).count counted =
      names.count counted + if role = counted then 1 else 0 := by
  cases role <;> cases counted <;>
    simp [declare, count, Declaration.count_append, Declaration.count_cons]

/-- Before a subroutine is read. -/
def openSubroutine : Names := { names with ofSubroutine := [] }

/-- In a subroutine of a kind, before its parameters. -/
def enterSubroutine (kind : SubroutineKind) : Names :=
  { names with ofSubroutine := kind.receiver names.className }

end Names

/-! ## Goals -/

/-- What is to be read. -/
inductive Goal
  | kind (kind : Token.Kind)
  | className
  /-- Declarations of class variables, subroutines and the closing brace. -/
  | classBody
  /-- Subroutines and the closing brace. -/
  | subroutines
  | returnType
  /-- The name of a subroutine of a kind. -/
  | subroutineName (kind : SubroutineKind)
  /-- The type of variables that are declared, and their names up to the semicolon. -/
  | variableList (role : Role)
  | variable (role : Role) (type : String)
  /-- Further variables of a type, up to the semicolon. -/
  | moreVariables (role : Role) (type : String)
  /-- Parameters and the closing parenthesis. -/
  | parameters
  | parameter
  | moreParameters
  /-- Declarations of local variables, statements and the closing brace. -/
  | body
  /-- Statements and the closing brace. -/
  | statements
  /-- The alternative of a choice, further statements and the closing brace. -/
  | alternative
  | target
  /-- What follows the target of an assignment, up to the semicolon. -/
  | assignment
  /-- What follows `return`, up to the semicolon. -/
  | result
  | term
  /-- Operators with further terms. -/
  | operands
  /-- What follows a name in an expression. -/
  | afterName (name : String)
  | call
  /-- What follows the first name of a call. -/
  | afterCaller (name : String)
  /-- Arguments and the closing parenthesis. A receiver is passed before them. -/
  | arguments (receiver : Bool)
  /-- Further arguments behind a number of others and one more, and the closing parenthesis. -/
  | moreArguments (number : Nat) (receiver : Bool)

/-- What a goal makes of the next terminal. -/
inductive Reaction
  /-- There is nothing to be read. -/
  | leave
  | read (goals : List Goal) (names : Names)
  /-- There is an error, at the next terminal or at one before it. -/
  | refuse (back : Nat) (error : ErrorKind)

/-- What is wrong with the next terminal, or with the end if there is none. -/
def unexpected (next : Option Terminal) (error : Token.Kind → SyntaxError) : ErrorKind :=
  .grammatical (next.elim .unexpectedEnd fun terminal => error terminal.kind)

/-- An error at the next terminal, or at the end if there is none. -/
def Reaction.unexpected (next : Option Terminal) (error : Token.Kind → SyntaxError) : Reaction :=
  .refuse 0 (Prediction.unexpected next error)

/-- A terminal of one kind is read and other goals follow. -/
def Reaction.expect (kind : Token.Kind) (goals : List Goal) (names : Names)
    (next : Option Terminal) : Reaction :=
  if next.map Terminal.kind = some kind then .read goals names
  else .unexpected next (.unexpected kind)

/-- A name is read, on which what follows depends. -/
def Reaction.expectName (next : Option Terminal) (behind : String → Reaction) : Reaction :=
  match next with
  | some (.name text) => behind text
  | other => .unexpected other (.unexpected .identifier)

/-- A type is read, on which what follows depends. -/
def Reaction.expectType (next : Option Terminal) (goals : String → List Goal) (names : Names) :
    Reaction :=
  match next with
  | some (.keyword .int) => .read (goals TypeName.int.text) names
  | some (.keyword .char) => .read (goals TypeName.char.text) names
  | some (.keyword .boolean) => .read (goals TypeName.boolean.text) names
  | some (.name text) => .read (goals text) names
  | other => .unexpected other (.unexpectedAny Token.Kind.variableTypes)

namespace Goal

/-- The goals of an expression. -/
def expression (behind : List Goal) : List Goal := .term :: .operands :: behind

/-- The goals of a mark. -/
def mark (sign : Punctuation) : Goal := .kind (.punctuation sign)

/-- How a term begins, with the goals behind it. -/
def reactTerm (names : Names) (behind : List Goal) : Option Terminal → Reaction
  | some (.integer _) | some (.string _) => .read behind names
  | some (.name text) => .read (.afterName text :: behind) names
  | some (.mark .leftParen) => .read (expression (mark .rightParen :: behind)) names
  | some (.mark .minus) | some (.mark .tilde) => .read (.term :: behind) names
  | some (.keyword .true) | some (.keyword .false) | some (.keyword .null)
  | some (.keyword .this) => .read behind names
  | other => .unexpected other .unexpectedInExpression

/-- How a call goes on behind its first name. -/
def reactCaller (names : Names) (name : String) : Option Terminal → Reaction
  | some (.mark .dot) =>
      .read [.kind .identifier, mark .leftParen,
        .arguments (names.environment.place? name).isSome] names
  | next => .expect (.punctuation .leftParen) [.arguments true] names next

/-- How statements begin, or end with the closing brace. -/
def reactStatements (names : Names) : Option Terminal → Reaction
  | some (.keyword .let) => .read [.target, .statements] names
  | some (.keyword .if) =>
      .read (mark .leftParen :: expression
        [mark .rightParen, mark .leftBrace, .statements, .alternative]) names
  | some (.keyword .while) =>
      .read (mark .leftParen :: expression
        [mark .rightParen, mark .leftBrace, .statements, .statements]) names
  | some (.keyword .do) => .read [.call, mark .semicolon, .statements] names
  | some (.keyword .return) => .read [.result, .statements] names
  | next => .expect (.punctuation .rightBrace) [] names next

/-- How a subroutine of a kind goes on behind its first word. -/
def subroutine (kind : SubroutineKind) : List Goal :=
  [.returnType, .subroutineName kind, mark .leftParen, .parameters, mark .leftBrace, .body,
    .subroutines]

/-- How subroutines begin, or end with the closing brace. -/
def reactSubroutines (names : Names) : Option Terminal → Reaction
  | some (.keyword .constructor) => .read (subroutine .constructor) names.openSubroutine
  | some (.keyword .function) => .read (subroutine .function) names.openSubroutine
  | some (.keyword .method) => .read (subroutine .method) names.openSubroutine
  | next => .expect (.punctuation .rightBrace) [] names next

/-- How arguments end behind a number of them. -/
def reactClosing (names : Names) (number : Nat) (receiver : Bool) : Option Terminal → Reaction
  | some (.mark .rightParen) =>
      if maxCount < number + receiver.toNat then .refuse 0 (.limitExceeded .arguments)
      else .read [] names
  | other => .unexpected other (.unexpected (.punctuation .rightParen))

/-- How arguments go on behind a number of them and one more. -/
def reactArgument (names : Names) (number : Nat) (receiver : Bool) (next : Option Terminal) :
    Reaction :=
  if maxCount < number + 1 then .refuse 1 (.limitExceeded .arguments)
  else
    match next with
    | some (.mark .comma) => .read (expression [.moreArguments (number + 1) receiver]) names
    | other => reactClosing names (number + 1) receiver other

/-- What a goal makes of the next terminal, if there is one. -/
def react (names : Names) (next : Option Terminal) : Goal → Reaction
  | .kind sought => .expect sought [] names next
  | className => .expectName next fun text => .read [] { names with className := text }
  | classBody =>
      match next with
      | some (.keyword .static) => .read [.variableList (.ofClass .static), .classBody] names
      | some (.keyword .field) => .read [.variableList (.ofClass .field), .classBody] names
      | other => reactSubroutines names other
  | subroutines => reactSubroutines names next
  | returnType =>
      match next with
      | some (.keyword .void) | some (.keyword .int) | some (.keyword .char)
      | some (.keyword .boolean) | some (.name _) => .read [] names
      | other => .unexpected other (.unexpectedAny Token.Kind.returnTypes)
  | subroutineName entered => .expectName next fun _ => .read [] (names.enterSubroutine entered)
  | variableList role =>
      .expectType next (fun type => [.variable role type, .moreVariables role type]) names
  | .variable role type =>
      .expectName next fun text =>
        if names.count role < maxCount then .read [] (names.declare text type role)
        else .refuse 0 (.limitExceeded role.items)
  | moreVariables role type =>
      match next with
      | some (.mark .comma) => .read [.variable role type, .moreVariables role type] names
      | other => .expect (.punctuation .semicolon) [] names other
  | parameters =>
      match next with
      | some (.mark .rightParen) => .read [] names
      | other => .expectType other (fun type => [.variable .parameter type, .moreParameters]) names
  | parameter => .expectType next (fun type => [.variable .parameter type]) names
  | moreParameters =>
      match next with
      | some (.mark .comma) => .read [.parameter, .moreParameters] names
      | other => .expect (.punctuation .rightParen) [] names other
  | body =>
      match next with
      | some (.keyword .var) => .read [.variableList .local, .body] names
      | other => reactStatements names other
  | statements => reactStatements names next
  | alternative =>
      match next with
      | some (.keyword .else) => .read [mark .leftBrace, .statements, .statements] names
      | other => reactStatements names other
  | target =>
      .expectName next fun text =>
        if (names.environment.place? text).isSome then .read [.assignment] names
        else .refuse 0 (.unresolvedSymbol text)
  | assignment =>
      match next with
      | some (.mark .leftBracket) =>
          .read (expression (mark .rightBracket :: mark .equals ::
            expression [mark .semicolon])) names
      | other => .expect (.punctuation .equals) (expression [mark .semicolon]) names other
  | result =>
      match next with
      | some (.mark .semicolon) => .read [] names
      | other => reactTerm names [.operands, mark .semicolon] other
  | term => reactTerm names [] next
  | operands =>
      match next with
      | some (.mark sign) =>
          if (BinaryOperator.ofKind? (.punctuation sign)).isSome then .read (expression []) names
          else .leave
      | _ => .leave
  | afterName name =>
      match next with
      | some (.mark .leftParen) | some (.mark .dot) => reactCaller names name next
      | other =>
          if (names.environment.place? name).isSome then
            match other with
            | some (.mark .leftBracket) => .read (expression [mark .rightBracket]) names
            | _ => .leave
          else .refuse 1 (.unresolvedSymbol name)
  | call => .expectName next fun text => .read [.afterCaller text] names
  | afterCaller name => reactCaller names name next
  | arguments receiver =>
      match next with
      | some (.mark .rightParen) => .read [] names
      | other => reactTerm names [.operands, .moreArguments 0 receiver] other
  | moreArguments number receiver => reactArgument names number receiver next

end Goal

/-! ## Runs -/

/-- An error and the number of the terminal where it is; that at the end has the number of all. -/
structure Refusal where
  place : Nat
  error : ErrorKind
  deriving DecidableEq

/-- What goals make of the next terminal: those that need none of it are passed over, and behind
the last one the end has to come. -/
def settle (names : Names) (next : Option Terminal) : List Goal → Reaction
  | [] =>
      match next with
      | some terminal => .refuse 0 (.grammatical (.trailingInput terminal.kind))
      | none => .leave
  | goal :: goals =>
      match goal.react names next with
      | .leave => settle names next goals
      | .read others names => .read (others ++ goals) names
      | .refuse back error => .refuse back error

/-- The first error in terminals that are to meet goals, of which the first has a given place. -/
def refusal? (goals : List Goal) (names : Names) (place : Nat) : List Terminal → Option Refusal
  | [] =>
      match settle names none goals with
      | .refuse back error => some ⟨place - back, error⟩
      | _ => none
  | terminal :: others =>
      match settle names (some terminal) goals with
      | .read goals names => refusal? goals names (place + 1) others
      | .refuse back error => some ⟨place - back, error⟩
      | .leave => none

/-- The goals of a class. -/
def classGoals : List Goal := [.kind (.keyword .class), .className, Goal.mark .leftBrace, .classBody]

/-- Before anything is known. -/
def noNames : Names := ⟨"", [], []⟩

/-- The first error in the terminals of a class, if there is any. -/
def fault? (terminals : List Terminal) : Option Refusal :=
  refusal? classGoals noNames 0 terminals

/-- What follows from a reaction to the next of the terminals, with goals behind. -/
def Reaction.refusal? (goals : List Goal) (names : Names) (place : Nat) :
    Reaction → List Terminal → Option Refusal
  | leave, terminals => Prediction.refusal? goals names place terminals
  | read others names, _ :: terminals =>
      Prediction.refusal? (others ++ goals) names (place + 1) terminals
  | read _ _, [] => none
  | refuse back error, _ => some ⟨place - back, error⟩

section Runs

variable {goal : Goal} {goals others : List Goal} {names names' : Names} {place back : Nat}
  {terminal : Terminal} {terminals : List Terminal} {error : ErrorKind}

/-- The first goal decides what comes of the next terminal. -/
theorem refusal?_cons :
    refusal? (goal :: goals) names place terminals =
      (goal.react names terminals.head?).refusal? goals names place terminals := by
  cases terminals with
  | nil =>
      rw [refusal?, settle, List.head?_nil]
      cases goal.react names none <;> rfl
  | cons terminal others =>
      rw [refusal?, settle, List.head?_cons]
      cases goal.react names (some terminal) <;> rfl

/-- A goal that needs nothing leaves the first error to the goals behind it. -/
theorem refusal?_of_leave (reaction : goal.react names terminals.head? = .leave) :
    refusal? (goal :: goals) names place terminals = refusal? goals names place terminals := by
  rw [refusal?_cons, reaction]
  rfl

/-- A goal that reads leaves the first error to what takes its place, one place further on. -/
theorem refusal?_of_read (reaction : goal.react names (some terminal) = .read others names') :
    refusal? (goal :: goals) names place (terminal :: terminals) =
      refusal? (others ++ goals) names' (place + 1) terminals := by
  rw [refusal?_cons, List.head?_cons, reaction]
  rfl

/-- A goal that refuses is the first error. -/
theorem refusal?_of_refuse (reaction : goal.react names terminals.head? = .refuse back error) :
    refusal? (goal :: goals) names place terminals = some ⟨place - back, error⟩ := by
  rw [refusal?_cons, reaction]
  rfl

/-! ## Goals that amount to others

A goal that offers one more way to go on amounts to other goals when the next terminal does not go
that way. -/

/-- To expect a kind is to have it as the first goal. -/
theorem refusal?_expect (kind : Token.Kind) (others : List Goal) :
    (Reaction.expect kind others names terminals.head?).refusal? goals names place terminals =
      refusal? (.kind kind :: others ++ goals) names place terminals := by
  rw [List.cons_append, refusal?_cons]
  show _ = (Reaction.expect kind [] names terminals.head?).refusal? _ names place terminals
  unfold Reaction.expect
  split
  · cases terminals <;> rfl
  · cases terminals <;> rfl

/-- To react as a term does is to have a term as the first goal. -/
theorem refusal?_reactTerm (others : List Goal) :
    (Goal.reactTerm names others terminals.head?).refusal? goals names place terminals =
      refusal? (.term :: others ++ goals) names place terminals := by
  rw [List.cons_append, refusal?_cons]
  show _ = (Goal.reactTerm names [] terminals.head?).refusal? _ names place terminals
  rcases terminals with _ | ⟨terminal, terminals⟩
  · rfl
  · cases terminal with
    | keyword word => cases word <;> rfl
    | mark sign => cases sign <;> rfl
    | _ => rfl

/-- A value to return is an expression with a semicolon behind it, unless there is none. -/
theorem refusal?_result (apart : terminals.head? ≠ some (.mark .semicolon)) :
    refusal? (.result :: goals) names place terminals =
      refusal? (Goal.expression (Goal.mark .semicolon :: goals)) names place terminals := by
  rw [refusal?_cons]
  unfold Goal.react
  dsimp only
  split
  · next same => exact absurd same apart
  · exact refusal?_reactTerm [.operands, Goal.mark .semicolon]

/-- Arguments begin with an expression, unless there are none. -/
theorem refusal?_arguments {receiver : Bool}
    (apart : terminals.head? ≠ some (.mark .rightParen)) :
    refusal? (.arguments receiver :: goals) names place terminals =
      refusal? (Goal.expression (.moreArguments 0 receiver :: goals)) names place terminals := by
  rw [refusal?_cons]
  unfold Goal.react
  dsimp only
  split
  · next same => exact absurd same apart
  · exact refusal?_reactTerm [.operands, .moreArguments 0 receiver]

/-- An assignment goes on with its value, unless it is to an element. -/
theorem refusal?_assignment (apart : terminals.head? ≠ some (.mark .leftBracket)) :
    refusal? (.assignment :: goals) names place terminals =
      refusal? (Goal.mark .equals :: Goal.expression (Goal.mark .semicolon :: goals)) names place
        terminals := by
  rw [refusal?_cons]
  unfold Goal.react
  dsimp only
  split
  · next same => exact absurd same apart
  · exact refusal?_expect _ _

/-- A call on no other name goes on with its arguments. -/
theorem refusal?_afterCaller {name : String} (apart : terminals.head? ≠ some (.mark .dot)) :
    refusal? (.afterCaller name :: goals) names place terminals =
      refusal? (Goal.mark .leftParen :: .arguments true :: goals) names place terminals := by
  rw [refusal?_cons]
  show (Goal.reactCaller names name terminals.head?).refusal? goals names place terminals = _
  unfold Goal.reactCaller
  split
  · next same => exact absurd same apart
  · exact refusal?_expect _ _

/-- Without a comma the names of a group end. -/
theorem refusal?_moreVariables {role : Role} {type : String}
    (apart : terminals.head? ≠ some (.mark .comma)) :
    refusal? (.moreVariables role type :: goals) names place terminals =
      refusal? (Goal.mark .semicolon :: goals) names place terminals := by
  rw [refusal?_cons]
  unfold Goal.react
  dsimp only
  split
  · next same => exact absurd same apart
  · exact refusal?_expect _ _

/-- Without a comma the parameters end. -/
theorem refusal?_moreParameters (apart : terminals.head? ≠ some (.mark .comma)) :
    refusal? (.moreParameters :: goals) names place terminals =
      refusal? (Goal.mark .rightParen :: goals) names place terminals := by
  rw [refusal?_cons]
  unfold Goal.react
  dsimp only
  split
  · next same => exact absurd same apart
  · exact refusal?_expect _ _

/-- Parameters begin with one, unless there are none. -/
theorem refusal?_parameters (apart : terminals.head? ≠ some (.mark .rightParen)) :
    refusal? (.parameters :: goals) names place terminals =
      refusal? (.parameter :: .moreParameters :: goals) names place terminals := by
  rw [refusal?_cons, refusal?_cons]
  rcases terminals with _ | ⟨terminal, terminals⟩
  · rfl
  · cases terminal with
    | keyword word => cases word <;> rfl
    | mark sign =>
        cases sign with
        | rightParen => exact absurd rfl apart
        | _ => rfl
    | _ => rfl

/-- Without its keyword there is no alternative, but further statements. -/
theorem refusal?_alternative (apart : terminals.head? ≠ some (.keyword .else)) :
    refusal? (.alternative :: goals) names place terminals =
      refusal? (.statements :: goals) names place terminals := by
  rw [refusal?_cons, refusal?_cons]
  unfold Goal.react
  dsimp only
  split
  · next same => exact absurd same apart
  · rfl

/-- Without its keyword there are no local variables, but the statements. -/
theorem refusal?_body (apart : terminals.head? ≠ some (.keyword .var)) :
    refusal? (.body :: goals) names place terminals =
      refusal? (.statements :: goals) names place terminals := by
  rw [refusal?_cons, refusal?_cons]
  unfold Goal.react
  dsimp only
  split
  · next same => exact absurd same apart
  · rfl

/-- Without the keyword of a statement the block ends. -/
theorem refusal?_statements
    (apart : ∀ word ∈ statementWords, terminals.head? ≠ some (.keyword word)) :
    refusal? (.statements :: goals) names place terminals =
      refusal? (Goal.mark .rightBrace :: goals) names place terminals := by
  rw [refusal?_cons]
  show (Goal.reactStatements names terminals.head?).refusal? goals names place terminals = _
  rw [Goal.reactStatements]
  · exact refusal?_expect _ []
  all_goals exact apart _ (by simp [statementWords])

/-- Without the keyword of a storage the variables of a class end, and its subroutines begin. -/
theorem refusal?_classBody
    (apart : ∀ storage, terminals.head? ≠ some (.keyword (storageWord storage))) :
    refusal? (.classBody :: goals) names place terminals =
      refusal? (.subroutines :: goals) names place terminals := by
  rw [refusal?_cons, refusal?_cons]
  unfold Goal.react
  dsimp only
  split
  · next same => exact absurd same (apart .static)
  · next same => exact absurd same (apart .field)
  · rfl

/-- Without the keyword of a subroutine the class ends. -/
theorem refusal?_subroutines
    (apart : ∀ kind : SubroutineKind, terminals.head? ≠ some (.keyword kind.word)) :
    refusal? (.subroutines :: goals) names place terminals =
      refusal? (Goal.mark .rightBrace :: goals) names place terminals := by
  rw [refusal?_cons]
  show (Goal.reactSubroutines names terminals.head?).refusal? goals names place terminals = _
  rw [Goal.reactSubroutines]
  · exact refusal?_expect _ []
  · exact apart .constructor
  · exact apart .function
  · exact apart .method

/-- Where no operator is next there are no more operands. -/
theorem refusal?_operands (ended : (nextKind? terminals).bind BinaryOperator.ofKind? = none) :
    refusal? (.operands :: goals) names place terminals =
      refusal? goals names place terminals := by
  apply refusal?_of_leave
  rcases terminals with _ | ⟨terminal, terminals⟩
  · rfl
  · cases terminal with
    | mark sign =>
        have none : BinaryOperator.ofKind? (.punctuation sign) = none := ended
        unfold Goal.react
        simp [none]
    | _ => rfl

/-- A name that is called begins a call. -/
theorem refusal?_afterName_of_call {name : String}
    (called : terminals.head? = some (.mark .leftParen) ∨ terminals.head? = some (.mark .dot)) :
    refusal? (.afterName name :: goals) names place terminals =
      refusal? (.afterCaller name :: goals) names place terminals := by
  rw [refusal?_cons, refusal?_cons]
  rcases called with parenthesis | dot
  · rw [parenthesis]
    rfl
  · rw [dot]
    rfl

/-- A name that nothing continues is a variable. -/
theorem refusal?_afterName {name : String} (ends : EndsTerm (nextKind? terminals)) :
    refusal? (.afterName name :: goals) names place terminals =
      if (names.environment.place? name).isSome then refusal? goals names place terminals
      else some ⟨place - 1, .unresolvedSymbol name⟩ := by
  rw [refusal?_cons]
  unfold Goal.react
  rcases terminals with _ | ⟨terminal, terminals⟩
  · dsimp only [List.head?_nil]
    split <;> rfl
  · cases terminal with
    | mark sign =>
        cases sign with
        | leftBracket | leftParen | dot => cases ends
        | _ =>
            dsimp only [List.head?_cons]
            split <;> rfl
    | _ =>
        dsimp only [List.head?_cons]
        split <;> rfl

/-- A name in front of an index is an array. -/
theorem refusal?_afterName_of_index {name : String} :
    refusal? (.afterName name :: goals) names place (.mark .leftBracket :: terminals) =
      if (names.environment.place? name).isSome then
        refusal? (Goal.expression (Goal.mark .rightBracket :: goals)) names (place + 1) terminals
      else some ⟨place - 1, .unresolvedSymbol name⟩ := by
  rw [refusal?_cons]
  unfold Goal.react
  dsimp only [List.head?_cons]
  split <;> rfl

section Arguments

variable {number : Nat} {receiver : Bool}

/-- One argument too many is refused at the place before. -/
theorem refusal?_moreArguments_of_many (many : maxCount < number + 1) :
    refusal? (.moreArguments number receiver :: goals) names place terminals =
      some ⟨place - 1, .limitExceeded .arguments⟩ := by
  rw [refusal?_cons]
  unfold Goal.react Goal.reactArgument
  dsimp only
  rw [if_pos many]
  rfl

/-- A comma goes before one more argument if there may be one. -/
theorem refusal?_moreArguments_of_comma (few : number + 1 ≤ maxCount) :
    refusal? (.moreArguments number receiver :: goals) names place (.mark .comma :: terminals) =
      refusal? (Goal.expression (.moreArguments (number + 1) receiver :: goals)) names (place + 1)
        terminals := by
  rw [refusal?_cons]
  unfold Goal.react Goal.reactArgument
  dsimp only
  rw [if_neg (Nat.not_lt.2 few)]
  rfl

/-- Arguments that do not go on are closed. -/
theorem refusal?_moreArguments (few : number + 1 ≤ maxCount)
    (apart : terminals.head? ≠ some (.mark .comma)) :
    refusal? (.moreArguments number receiver :: goals) names place terminals =
      (Goal.reactClosing names (number + 1) receiver terminals.head?).refusal? goals names place
        terminals := by
  rw [refusal?_cons]
  unfold Goal.react Goal.reactArgument
  dsimp only
  rw [if_neg (Nat.not_lt.2 few)]
  split
  · next comma => exact absurd comma apart
  · rfl

/-- The closing parenthesis is refused if the receiver makes the arguments too many. -/
theorem refusal?_closing :
    (Goal.reactClosing names number receiver (some (.mark .rightParen))).refusal? goals names place
        (.mark .rightParen :: terminals) =
      if maxCount < number + receiver.toNat then some ⟨place, .limitExceeded .arguments⟩
      else refusal? goals names (place + 1) terminals := by
  rw [Goal.reactClosing]
  split <;> rfl

end Arguments

/-- The error does not depend on what the first place is called. -/
theorem error_of_refusal? (place place' : Nat) :
    (refusal? goals names place terminals).map Refusal.error =
      (refusal? goals names place' terminals).map Refusal.error := by
  induction terminals generalizing goals names place place' with
  | nil =>
      rw [refusal?, refusal?]
      cases settle names none goals <;> rfl
  | cons terminal others inductionHypothesis =>
      rw [refusal?, refusal?]
      cases settle names (some terminal) goals with
      | leave => rfl
      | read goals names => exact inductionHypothesis _ _
      | refuse back error => rfl

end Runs

end Prediction

end JackCompiler
