import JackCompiler.Compilation.Expression

/-!
# Statements

    statements ::= (let | if | while | do | return)*
    let        ::= "let" name ("[" expression "]")? "=" expression ";"
    if         ::= "if" "(" expression ")" block ("else" block)?
    while      ::= "while" "(" expression ")" block
    do         ::= "do" subroutineCall ";"
    return     ::= "return" expression? ";"
    block      ::= { statements }

The code of a statement leaves the stack as it found it, but for `return`, which leaves the value
that the subroutine returns. A condition holds when it is not zero after every bit is negated. `if`
and `while` draw their two labels before anything inside them is read.
-/

namespace JackCompiler

namespace Pass

variable {σ : Type} [LabelSource σ]

/-- A condition in parentheses. Its code leaves the negated condition. -/
def condition : Pass σ Code := do
  expectMark .leftParen
  let code ← expression
  expectMark .rightParen
  pure (code.unary .not)

/-- Statements in braces, given the recogniser of statements. -/
def blockOf (statements : Pass σ Code) : Pass σ Code := do
  expectMark .leftBrace
  let code ← statements
  expectMark .rightBrace
  pure code

/-- The rest of an assignment to an array element, after the opening bracket. The address stays on
the stack until the value is computed, which may use `pointer 1` itself. -/
def elementAssignment (array : Variable) : Pass σ Code := do
  let index ← expression
  expectMark .rightBracket
  expectMark .equals
  let value ← expression
  pure (Code.ofList [.push array.segment array.index] ++ index ++
    Code.ofList [.command .add] ++ value ++
    Code.ofList [.pop .temp 0, .pop .pointer 1, .push .temp 0, .pop .that 0])

/-- The rest of an assignment to a variable, after its name. -/
def variableAssignment (target : Variable) : Pass σ Code := do
  expectMark .equals
  let value ← expression
  pure (value.push (.pop target.segment target.index))

/-- An assignment, after its keyword. -/
def letStatement : Pass σ Code := do
  let target ← resolve (← expect .identifier)
  let code ←
    if ← take (.punctuation .leftBracket) then elementAssignment target
    else variableAssignment target
  expectMark .semicolon
  pure code

/-- A choice, after its keyword, given the recogniser of blocks. -/
def ifStatement (block : Pass σ Code) : Pass σ Code := do
  let otherwise ← draw
  let done ← draw
  let test ← condition
  let body ← block
  let alternative ← if ← take (.keyword .else) then block else pure .empty
  pure (test ++ Code.ofList [.ifGoto otherwise] ++ body ++
    Code.ofList [.goto done, .label otherwise] ++ alternative ++ Code.ofList [.label done])

/-- A loop, after its keyword, given the recogniser of blocks. -/
def whileStatement (block : Pass σ Code) : Pass σ Code := do
  let top ← draw
  let bottom ← draw
  let test ← condition
  let body ← block
  pure (Code.ofList [.label top] ++ test ++ Code.ofList [.ifGoto bottom] ++ body ++
    Code.ofList [.goto top, .label bottom])

/-- A call as a statement, after its keyword. Its result is dropped. -/
def doStatement : Pass σ Code := do
  let code ← subroutineCall expression
  expectMark .semicolon
  pure (code.push (.pop .temp 0))

/-- A return, after its keyword. Without an expression it returns zero. -/
def returnStatement : Pass σ Code := do
  if ← take (.punctuation .semicolon) then
    pure (Code.ofList [.push .constant 0, .return])
  else
    let code ← expression
    expectMark .semicolon
    pure (code.push .return)

/-- Statements, up to a token that opens none, given the recogniser of blocks. -/
def statementsOf (block : Pass σ Code) : Pass σ Code :=
  iterate (fun code => do
    match (← advance).kind with
    | .keyword .let => do pure (.inl (code ++ (← letStatement)))
    | .keyword .if => do pure (.inl (code ++ (← ifStatement block)))
    | .keyword .while => do pure (.inl (code ++ (← whileStatement block)))
    | .keyword .do => do pure (.inl (code ++ (← doStatement)))
    | .keyword .return => do pure (.inl (code ++ (← returnStatement)))
    | _ => do
        unread
        pure (.inr code)) .empty

/-- Statements, with at most the given number of blocks around them. -/
def statementsWithin : Nat → Pass σ Code
  | 0 => breakOff .boundExceeded
  | depth + 1 => statementsOf (blockOf (statementsWithin depth))

/-- Statements. -/
def statements : Pass σ Code := do
  statementsWithin (← context).bound

end Pass

end JackCompiler
