import JackCompiler.Compilation.Statement
import JackCompiler.Proofs.Recognition.ExpressionSound
import JackCompiler.Proofs.Termination.Alike

/-!
# The recursion of the recognisers

Eight recognisers call one another: those of statements, blocks, choices, loops, expressions, terms,
calls and lists of arguments. `Recognisers.body` is what each of them does, given what all of them
do. A body looks at the recognisers it calls only where fewer tokens are left, or as many and the
rank of the recogniser is lower. Three calls are of the second kind: a list of arguments starts with
an expression, an expression with a term, and a term that is a call is made unread before the call
is entered. The ranks are in that order, and a call reads a name before anything else.
-/

namespace JackCompiler

namespace Pass

variable {σ : Type}

/-! ## What a recogniser does, given those it calls -/

/-- `condition`, given the recogniser of expressions. -/
def conditionVia (expression : Pass σ Code) : Pass σ Code := do
  expectMark .leftParen
  let code ← expression
  expectMark .rightParen
  pure (code.unary .not)

/-- `elementAssignment`, given the recogniser of expressions. -/
def elementAssignmentVia (expression : Pass σ Code) (array : Variable) : Pass σ Code := do
  let index ← expression
  expectMark .rightBracket
  expectMark .equals
  let value ← expression
  pure (Code.ofList [.push array.segment array.index] ++ index ++
    Code.ofList [.command .add] ++ value ++
    Code.ofList [.pop .temp 0, .pop .pointer 1, .push .temp 0, .pop .that 0])

/-- `variableAssignment`, given the recogniser of expressions. -/
def variableAssignmentVia (expression : Pass σ Code) (target : Variable) : Pass σ Code := do
  expectMark .equals
  let value ← expression
  pure (value.push (.pop target.segment target.index))

/-- `letStatement`, given the recogniser of expressions. -/
def letVia (expression : Pass σ Code) : Pass σ Code := do
  let target ← resolve (← expect .identifier)
  let code ←
    if ← take (.punctuation .leftBracket) then elementAssignmentVia expression target
    else variableAssignmentVia expression target
  expectMark .semicolon
  pure code

/-- `doStatement`, given the recogniser of calls. -/
def doVia (call : Pass σ Code) : Pass σ Code := do
  let code ← call
  expectMark .semicolon
  pure (code.push (.pop .temp 0))

/-- `returnStatement`, given the recogniser of expressions. -/
def returnVia (expression : Pass σ Code) : Pass σ Code := do
  if ← take (.punctuation .semicolon) then
    pure (Code.ofList [.push .constant 0, .return])
  else
    let code ← expression
    expectMark .semicolon
    pure (code.push .return)

/-- `arguments`, given the recogniser of lists of arguments. -/
def argumentsVia (list : Pass σ (Code × UInt16)) : Pass σ (Code × UInt16) := do
  expectMark .leftParen
  let list ← list
  expectMark .rightParen
  pure list

/-- `subroutineCall`, given the recogniser of lists of arguments. -/
def callVia (list : Pass σ (Code × UInt16)) : Pass σ Code := do
  let first ← name
  if ← take (.punctuation .dot) then
    let subroutine ← name
    match ← lookup? first with
    | some receiver =>
        let (code, count) ← argumentsVia list
        let count ← withReceiver count
        pure ((Code.ofList [.push receiver.segment receiver.index] ++ code).push
          (.call (receiver.type ++ "." ++ subroutine) count))
    | none =>
        let (code, count) ← argumentsVia list
        pure (code.push (.call (first ++ "." ++ subroutine) count))
  else
    let (code, count) ← argumentsVia list
    let count ← withReceiver count
    pure ((Code.ofList [.push .pointer 0] ++ code).push
      (.call ((← className) ++ "." ++ first) count))

/-- `nameTerm`, given the recognisers of expressions and calls. -/
def nameTermVia (expression call : Pass σ Code) (token : Token) : Pass σ Code := do
  match (← peek?).map Token.kind with
  | some (.punctuation .leftBracket) =>
      let array ← resolve token
      arrayElement expression array
  | some (.punctuation .leftParen) | some (.punctuation .dot) =>
      unread
      call
  | _ =>
      let place ← resolve token
      pure (Code.ofList [.push place.segment place.index])

/-- A term that starts with neither a keyword constant nor a unary operator. -/
def primaryVia (expression call : Pass σ Code) (token : Token) : Pass σ Code :=
  match token.kind with
  | .integer value => pure (Code.ofList [.push .constant value])
  | .string => stringTerm token
  | .punctuation .leftParen => do
      let code ← expression
      expectMark .rightParen
      pure code
  | .identifier => nameTermVia expression call token
  | actual => reject token.span (.grammatical (.unexpectedInExpression actual))

/-- `term`, given the recognisers of terms, expressions and calls. -/
def termVia (term expression call : Pass σ Code) : Pass σ Code := do
  let token ← advance
  match KeywordConstant.ofKind? token.kind with
  | some constant => pure (Code.constant constant)
  | none =>
      match UnaryOperator.ofKind? token.kind with
      | some operator => do
          let operand ← term
          pure (operand.unary operator)
      | none => primaryVia expression call token

/-- A call is what is made of its list of arguments. -/
theorem subroutineCall_eq (expression : Pass σ Code) :
    subroutineCall expression = callVia (expressionList expression) := rfl

/-- A term of some depth is made of terms that are less deep. -/
theorem term_succ (depth : Nat) :
    (term (depth + 1) : Pass σ Code) = termVia (term depth) (expressionOf (term depth))
      (subroutineCall (expressionOf (term depth))) := rfl

variable [LabelSource σ]

/-- `ifStatement`, given the recognisers of expressions and blocks. -/
def choiceVia (expression block : Pass σ Code) : Pass σ Code := do
  let otherwise ← draw
  let done ← draw
  let test ← conditionVia expression
  let body ← block
  let alternative ← if ← take (.keyword .else) then block else pure .empty
  pure (test ++ Code.ofList [.ifGoto otherwise] ++ body ++
    Code.ofList [.goto done, .label otherwise] ++ alternative ++ Code.ofList [.label done])

/-- `whileStatement`, given the recognisers of expressions and blocks. -/
def loopVia (expression block : Pass σ Code) : Pass σ Code := do
  let top ← draw
  let bottom ← draw
  let test ← conditionVia expression
  let body ← block
  pure (Code.ofList [.label top] ++ test ++ Code.ofList [.ifGoto bottom] ++ body ++
    Code.ofList [.goto top, .label bottom])

/-- A round of statements, given the recognisers of what can follow a keyword. -/
def statementVia (expression call choice loop : Pass σ Code) (code : Code) :
    Pass σ (Code ⊕ Code) := do
  match (← advance).kind with
  | .keyword .let => do pure (.inl (code ++ (← letVia expression)))
  | .keyword .if => do pure (.inl (code ++ (← choice)))
  | .keyword .while => do pure (.inl (code ++ (← loop)))
  | .keyword .do => do pure (.inl (code ++ (← doVia call)))
  | .keyword .return => do pure (.inl (code ++ (← returnVia expression)))
  | _ => do
      unread
      pure (.inr code)

/-- `statements`, given the recognisers of what can follow a keyword. -/
def statementsVia (expression call choice loop : Pass σ Code) : Pass σ Code :=
  iterate (statementVia expression call choice loop) .empty

/-- A choice is what is made of expressions and of its blocks. -/
theorem ifStatement_eq (block : Pass σ Code) : ifStatement block = choiceVia expression block := rfl

/-- A loop is what is made of expressions and of its block. -/
theorem whileStatement_eq (block : Pass σ Code) :
    whileStatement block = loopVia expression block := rfl

/-- Statements are what is made of the recognisers for their parts. -/
theorem statementsOf_eq (block : Pass σ Code) :
    statementsOf block = statementsVia expression (subroutineCall expression)
      (ifStatement block) (whileStatement block) := rfl

end Pass

/-! ## Recognisers run alike if those they call do -/

namespace Pass

section Alike

variable {σ : Type} {context context' : PassContext} {limit : Nat}
  {expression expression' call call' block block' choice choice' loop loop' : Pass σ Code}

section Expressions

variable {term term' : Pass σ Code} {list list' : Pass σ (Code × UInt16)}

theorem alike_nextOperator? :
    Alike (σ := σ) context context' limit nextOperator? nextOperator? fun _ => 0 := by
  refine alike_peek?.bind ?_
  rintro (_ | token)
  · exact alike_pure rfl
  · exact alike_pure rfl

/-- A round that goes on reads an operator and a term. -/
theorem alike_operandStep (terms : Alike context context' limit term term' fun _ => 1)
    (code : Code) :
    Alike context context' limit (operandStep term code) (operandStep term' code)
      (Sum.elim (fun _ => 1) fun _ => 0) := by
  refine alike_nextOperator?.bind ?_
  rintro (_ | operator)
  · exact alike_pure rfl
  · exact alike_advance.bind fun _ => terms.bind fun operand => alike_pure rfl

/-- An expression starts with a term, which has as many tokens left. -/
theorem alike_expressionOf (bounds : PassContext.SameBelow limit context context')
    (terms : Alike context context' limit term term' fun _ => 1) :
    Alike context context' limit (expressionOf term) (expressionOf term') fun _ => 1 :=
  terms.bind fun first => Alike.iterate bounds (alike_operandStep terms) first

/-- Items of a list of arguments run alike if expressions do. -/
theorem alike_argumentItem
    (expressions : Alike context context' limit expression expression' fun _ => 1)
    (list : Code × UInt16) :
    Alike context context' limit (argumentItem expression list) (argumentItem expression' list)
      fun _ => 1 := by
  obtain ⟨code, count⟩ := list
  exact expressions.bind fun argument => (alike_sum _ _ _).bind fun count => alike_pure rfl

/-- A list of arguments starts with an expression, which has as many tokens left. -/
theorem alike_expressionList (bounds : PassContext.SameBelow limit context context')
    (expressions : Alike context context' limit expression expression' fun _ => 1) :
    Alike context context' limit (expressionList expression) (expressionList expression')
      fun _ => 0 := by
  refine (alike_nextSatisfies _).bind ?_
  rintro (_ | _)
  · exact (alike_separated bounds (alike_argumentItem expressions) _).uncounted
  · exact alike_pure rfl

/-- Arguments run alike if lists of them do, for a parenthesis is read before the list. -/
theorem alike_argumentsVia (lists : Alike context context' limit list list' fun _ => 0) :
    Alike context context' limit (argumentsVia list) (argumentsVia list') fun _ => 1 := by
  refine (alike_expectMark _).bind fun _ => lists.bind fun list => ?_
  exact (alike_closed list).uncounted

/-- A call reads a name in front of its arguments. -/
theorem alike_callVia (source : context.source = context'.source)
    (lists : Alike context context' limit list list' fun _ => 0) :
    Alike context context' (limit + 1) (callVia list) (callVia list') fun _ => 1 := by
  have arguments : Alike context context' limit (argumentsVia list) (argumentsVia list')
      fun _ => 0 :=
    (alike_argumentsVia lists).uncounted
  refine (alike_name source).inner fun first => (alike_take _).bind ?_
  rintro (_ | _)
  · refine arguments.bind ?_
    rintro ⟨code, count⟩
    refine (alike_sum _ _ _).bind fun count => ?_
    exact alike_className.bind fun _ => alike_pure rfl
  · refine (alike_name source).bind fun subroutine => (alike_lookup? first).bind ?_
    rintro (_ | receiver)
    · refine arguments.bind ?_
      rintro ⟨code, count⟩
      exact alike_pure rfl
    · refine arguments.bind ?_
      rintro ⟨code, count⟩
      exact (alike_sum _ _ _).bind fun count => alike_pure rfl

/-- Elements of arrays run alike if expressions do. -/
theorem alike_arrayElement
    (expressions : Alike context context' limit expression expression' fun _ => 1)
    (array : Variable) :
    Alike context context' limit (arrayElement expression array) (arrayElement expression' array)
      fun _ => 0 :=
  alike_advance.bind fun _ => expressions.bind fun _ => (alike_expectMark _).bind fun _ =>
    alike_pure rfl

/-- A name that starts a call is made unread, so the call may have a token more left. -/
theorem alike_nameTermVia (source : context.source = context'.source)
    (expressions : Alike context context' limit expression expression' fun _ => 1)
    (calls : Alike context context' (limit + 1) call call' fun _ => 1) (token : Token) :
    Alike context context' limit (nameTermVia expression call token)
      (nameTermVia expression' call' token) fun _ => 0 := by
  refine alike_peek?.bind fun next? => ?_
  split
  · exact (alike_resolve source token).bind (alike_arrayElement expressions)
  · exact Alike.unread fun _ => calls
  · exact Alike.unread fun _ => calls
  · exact (alike_resolve source token).bind fun place => alike_pure rfl

/-- String constants run alike where the source is the same. -/
theorem alike_stringTerm (source : context.source = context'.source) (token : Token) :
    Alike (σ := σ) context context' limit (stringTerm token) (stringTerm token) fun _ => 0 := by
  refine alike_context ?_
  rw [source]
  refine (alike_required _).bind fun text => ?_
  split
  · exact alike_pure rfl
  · exact alike_breakOff _

/-- The rest of a term runs alike; a call is entered with the name of the term unread. -/
theorem alike_primaryVia (source : context.source = context'.source)
    (expressions : Alike context context' limit expression expression' fun _ => 1)
    (calls : Alike context context' (limit + 1) call call' fun _ => 1) (token : Token) :
    Alike context context' limit (primaryVia expression call token)
      (primaryVia expression' call' token) fun _ => 0 := by
  have refused (actual : Token.Kind) : Alike (σ := σ) (α := Code) context context' limit
      (reject token.span (.grammatical (.unexpectedInExpression actual)))
      (reject token.span (.grammatical (.unexpectedInExpression actual))) fun _ => 0 :=
    alike_reject _ _
  unfold primaryVia
  cases token.kind with
  | integer value => exact alike_pure rfl
  | string => exact alike_stringTerm source token
  | identifier => exact alike_nameTermVia source expressions calls token
  | keyword word => exact refused _
  | punctuation mark =>
      cases mark with
      | leftParen =>
          exact expressions.bind fun code => (alike_expectMark _).bind fun _ => alike_pure rfl
      | _ => exact refused _

/-- A term reads a token first, but a call takes that token back. -/
theorem alike_termVia (source : context.source = context'.source)
    (terms : Alike context context' limit term term' fun _ => 1)
    (expressions : Alike context context' limit expression expression' fun _ => 1)
    (calls : Alike context context' (limit + 1) call call' fun _ => 1) :
    Alike context context' (limit + 1) (termVia term expression call)
      (termVia term' expression' call') fun _ => 1 := by
  refine alike_advance.inner fun token => ?_
  split
  · exact alike_pure rfl
  · split
    · exact terms.bind fun operand => alike_pure rfl
    · exact alike_primaryVia source expressions calls token

end Expressions

section Statements

/-- The opening brace of a block leaves fewer tokens for its statements. -/
theorem alike_blockOf {statements statements' : Pass σ Code}
    (inner : Alike context context' limit statements statements' fun _ => 0) :
    Alike context context' (limit + 1) (blockOf statements) (blockOf statements') fun _ => 1 :=
  (alike_expectMark _).inner fun _ => inner.bind fun _ => (alike_expectMark _).bind fun _ =>
    alike_pure rfl

/-- Tests run alike if expressions do where fewer tokens are left. -/
theorem alike_conditionVia
    (expressions : Alike context context' limit expression expression' fun _ => 1) :
    Alike context context' (limit + 1) (conditionVia expression) (conditionVia expression')
      fun _ => 1 :=
  (alike_expectMark _).inner fun _ => expressions.bind fun _ => (alike_expectMark _).bind
    fun _ => alike_pure rfl

/-- Assignments to elements run alike if expressions do. -/
theorem alike_elementAssignmentVia
    (expressions : Alike context context' limit expression expression' fun _ => 1)
    (array : Variable) :
    Alike context context' limit (elementAssignmentVia expression array)
      (elementAssignmentVia expression' array) fun _ => 0 := by
  refine expressions.bind fun index => (alike_expectMark _).bind fun _ => ?_
  exact (alike_expectMark _).bind fun _ => expressions.bind fun _ => alike_pure rfl

/-- Assignments to variables run alike if expressions do. -/
theorem alike_variableAssignmentVia
    (expressions : Alike context context' limit expression expression' fun _ => 1)
    (target : Variable) :
    Alike context context' limit (variableAssignmentVia expression target)
      (variableAssignmentVia expression' target) fun _ => 0 :=
  (alike_expectMark _).bind fun _ => expressions.bind fun _ => alike_pure rfl

/-- Assignments run alike if expressions do. -/
theorem alike_letVia (source : context.source = context'.source)
    (expressions : Alike context context' limit expression expression' fun _ => 1) :
    Alike context context' limit (letVia expression) (letVia expression') fun _ => 0 := by
  refine (alike_expect _).bind fun token => (alike_resolve source token).bind fun target => ?_
  refine (alike_take _).bind ?_
  rintro (_ | _)
  · refine (alike_variableAssignmentVia expressions target).bind fun code => ?_
    exact (alike_expectMark _).bind fun _ => alike_pure rfl
  · refine (alike_elementAssignmentVia expressions target).bind fun code => ?_
    exact (alike_expectMark _).bind fun _ => alike_pure rfl

/-- Calls as statements run alike if calls do. -/
theorem alike_doVia (calls : Alike context context' limit call call' fun _ => 1) :
    Alike context context' limit (doVia call) (doVia call') fun _ => 0 :=
  calls.bind fun _ => (alike_expectMark _).bind fun _ => alike_pure rfl

/-- Returns run alike if expressions do. -/
theorem alike_returnVia
    (expressions : Alike context context' limit expression expression' fun _ => 1) :
    Alike context context' limit (returnVia expression) (returnVia expression') fun _ => 0 := by
  refine (alike_take _).bind ?_
  rintro (_ | _)
  · exact expressions.bind fun code => (alike_expectMark _).bind fun _ => alike_pure rfl
  · exact alike_pure rfl

/-- A round that goes on reads the keyword of a statement; the last one takes its token back. -/
theorem alike_statementVia (source : context.source = context'.source)
    (expressions : Alike context context' limit expression expression' fun _ => 1)
    (calls : Alike context context' limit call call' fun _ => 1)
    (choices : Alike context context' limit choice choice' fun _ => 1)
    (loops : Alike context context' limit loop loop' fun _ => 1) (code : Code) :
    Alike context context' (limit + 1) (statementVia expression call choice loop code)
      (statementVia expression' call' choice' loop' code) (Sum.elim (fun _ => 1) fun _ => 0) := by
  refine Alike.token fun token => ?_
  split
  · exact .inl ((alike_letVia source expressions).bind fun more => alike_pure rfl)
  · exact .inl (choices.bind fun more => alike_pure rfl)
  · exact .inl (loops.bind fun more => alike_pure rfl)
  · exact .inl ((alike_doVia calls).bind fun more => alike_pure rfl)
  · exact .inl ((alike_returnVia expressions).bind fun more => alike_pure rfl)
  · exact .inr ⟨_, _, rfl, rfl, alike_pure rfl⟩

/-- Statements run alike if their parts do where fewer tokens are left. -/
theorem alike_statementsVia (bounds : PassContext.SameBelow (limit + 1) context context')
    (expressions : Alike context context' limit expression expression' fun _ => 1)
    (calls : Alike context context' limit call call' fun _ => 1)
    (choices : Alike context context' limit choice choice' fun _ => 1)
    (loops : Alike context context' limit loop loop' fun _ => 1) :
    Alike context context' (limit + 1) (statementsVia expression call choice loop)
      (statementsVia expression' call' choice' loop') fun _ => 0 :=
  Alike.iterate bounds (alike_statementVia bounds.source expressions calls choices loops) _

variable [LabelSource σ]

/-- The condition of a choice leaves fewer tokens for its blocks. -/
theorem alike_choiceVia
    (expressions : Alike context context' limit expression expression' fun _ => 1)
    (blocks : Alike context context' limit block block' fun _ => 1) :
    Alike context context' (limit + 1) (choiceVia expression block) (choiceVia expression' block')
      fun _ => 1 := by
  refine alike_draw.bind fun otherwise => alike_draw.bind fun done => ?_
  refine (alike_conditionVia expressions).inner fun test => blocks.bind fun body => ?_
  refine (alike_take _).bind ?_
  rintro (_ | _)
  · exact alike_pure rfl
  · exact blocks.bind fun alternative => alike_pure rfl

/-- Loops run alike if expressions and blocks do where fewer tokens are left. -/
theorem alike_loopVia
    (expressions : Alike context context' limit expression expression' fun _ => 1)
    (blocks : Alike context context' limit block block' fun _ => 1) :
    Alike context context' (limit + 1) (loopVia expression block) (loopVia expression' block')
      fun _ => 1 := by
  refine alike_draw.bind fun top => alike_draw.bind fun bottom => ?_
  refine (alike_conditionVia expressions).inner fun test => blocks.bind fun body => ?_
  exact alike_pure rfl

end Statements

end Alike

end Pass

/-! ## All recognisers -/

/-- The recognisers that call one another. -/
inductive Recogniser
  | statements
  | block
  | choice
  | loop
  | expression
  | term
  | call
  | argumentList

namespace Recogniser

/-- What a recogniser yields. -/
def Yield : Recogniser → Type
  | argumentList => Code × UInt16
  | statements | block | choice | loop | expression | term | call => Code

/-- A recogniser that may call another with as many tokens left has a higher rank. -/
def rank : Recogniser → Nat
  | argumentList => 3
  | expression => 2
  | term => 1
  | statements | block | choice | loop | call => 0

/-- How many tokens a recogniser reads at least. -/
def least : Recogniser → Nat
  | statements | argumentList => 0
  | block | choice | loop | expression | term | call => 1

end Recogniser

/-- A recogniser of each construct. -/
abbrev Recognisers (σ : Type) : Type := ∀ recogniser : Recogniser, Pass σ recogniser.Yield

namespace Recognisers

open Pass

variable {σ : Type} [LabelSource σ]

/-- What each recogniser does, if those it calls are the given ones. -/
def body (given : Recognisers σ) : Recognisers σ
  | .statements =>
      statementsVia (given .expression) (given .call) (given .choice) (given .loop)
  | .block => blockOf (given .statements)
  | .choice => choiceVia (given .expression) (given .block)
  | .loop => loopVia (given .expression) (given .block)
  | .expression => expressionOf (given .term)
  | .term => termVia (given .term) (given .expression) (given .call)
  | .call => callVia (given .argumentList)
  | .argumentList => expressionList (given .expression)

variable {context context' : PassContext} {limit : Nat}

/-- A body runs alike with recognisers that run alike where fewer tokens are left, and those of
lower rank where as many are. -/
theorem alike_body {given given' : Recognisers σ} {recogniser : Recogniser}
    (bounds : PassContext.SameBelow (limit + 1) context context')
    (fewer : ∀ callee, Alike context context' limit (given callee) (given' callee)
      fun _ => callee.least)
    (asMany : ∀ callee : Recogniser, callee.rank < recogniser.rank →
      Alike context context' (limit + 1) (given callee) (given' callee) fun _ => callee.least) :
    Alike context context' (limit + 1) (given.body recogniser) (given'.body recogniser)
      fun _ => recogniser.least := by
  cases recogniser with
  | statements =>
      exact alike_statementsVia bounds (fewer .expression) (fewer .call) (fewer .choice)
        (fewer .loop)
  | block => exact alike_blockOf (fewer .statements)
  | choice => exact alike_choiceVia (fewer .expression) (fewer .block)
  | loop => exact alike_loopVia (fewer .expression) (fewer .block)
  | expression => exact alike_expressionOf bounds (asMany .term (by decide))
  | term =>
      exact alike_termVia bounds.source (fewer .term) (fewer .expression)
        (asMany .call (by decide))
  | call => exact alike_callVia bounds.source (fewer .argumentList)
  | argumentList => exact alike_expressionList bounds (asMany .expression (by decide))

end Recognisers

end JackCompiler
