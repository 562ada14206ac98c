import JackCompiler.Compilation.Step
import JackCompiler.Machine.Code

/-!
# Expressions

    expression     ::= term (operator term)*
    term           ::= integer | string | keywordConstant | name | name "[" expression "]"
                     | subroutineCall | "(" expression ")" | unaryOperator term
    subroutineCall ::= name "(" expressionList ")" | name "." name "(" expressionList ")"
    expressionList ::= (expression ("," expression)*)?

The code of an expression leaves its value on the stack. Operators have no precedence and associate
to the left; a unary operator takes the next term alone. The recognisers take those of the parts
they nest as arguments, and the knot is tied in `term`, where every level of nesting reads a token.
-/

namespace JackCompiler

namespace Pass

variable {σ : Type}

/-- The binary operator that comes next, which stays unread. -/
def nextOperator? : Pass σ (Option BinaryOperator) := do
  match ← peek? with
  | some token => pure (BinaryOperator.ofKind? token.kind)
  | none => pure none

/-- Terms joined by binary operators, given the recogniser of terms. -/
def expressionOf (term : Pass σ Code) : Pass σ Code := do
  let first ← term
  iterate (fun code => do
    match ← nextOperator? with
    | some operator =>
        let _ ← advance
        let operand ← term
        pure (.inl ((code ++ operand).binary operator))
    | none => pure (.inr code)) first

/-- Expressions separated by commas, in front of a closing parenthesis. Yields their code in order
and their number. -/
def expressionList (expression : Pass σ Code) : Pass σ (Code × UInt16) := do
  if ← nextIs (.punctuation .rightParen) then
    pure (.empty, 0)
  else
    separated (fun (code, count) => do
      let argument ← expression
      let count ← sum .arguments count 1
      pure (code ++ argument, count)) (.empty, 0)

/-- The arguments of a call with their parentheses. -/
def arguments (expression : Pass σ Code) : Pass σ (Code × UInt16) := do
  expectMark .leftParen
  let list ← expressionList expression
  expectMark .rightParen
  pure list

/-- The number of arguments of a method call, which also passes the object. -/
def withReceiver (count : UInt16) : Pass σ UInt16 :=
  sum .arguments count 1

/-- A call, from its first name on. A name with a dot behind it is an object if it stands for a
variable and a class otherwise; a name without one is a method of the current object. -/
def subroutineCall (expression : Pass σ Code) : Pass σ Code := do
  let first ← name
  if ← take (.punctuation .dot) then
    let subroutine ← name
    match ← lookup? first with
    | some receiver =>
        let (code, count) ← arguments expression
        let count ← withReceiver count
        pure ((Code.ofList [.push receiver.segment receiver.index] ++ code).push
          (.call (receiver.type ++ "." ++ subroutine) count))
    | none =>
        let (code, count) ← arguments expression
        pure (code.push (.call (first ++ "." ++ subroutine) count))
  else
    let (code, count) ← arguments expression
    let count ← withReceiver count
    pure ((Code.ofList [.push .pointer 0] ++ code).push
      (.call ((← className) ++ "." ++ first) count))

/-- An array element, after the name of the array: its address goes to `pointer 1`. -/
def arrayElement (expression : Pass σ Code) (array : Variable) : Pass σ Code := do
  let _ ← advance
  let index ← expression
  expectMark .rightBracket
  pure (Code.ofList [.push array.segment array.index] ++ index ++
    Code.ofList [.command .add, .pop .pointer 1, .push .that 0])

/-- A term that starts with the name in `token`: what it is shows from the token behind it. -/
def nameTerm (expression : Pass σ Code) (token : Token) : Pass σ Code := do
  match (← peek?).map Token.kind with
  | some (.punctuation .leftBracket) =>
      let array ← resolve token
      arrayElement expression array
  | some (.punctuation .leftParen) | some (.punctuation .dot) =>
      unread
      subroutineCall expression
  | _ =>
      let place ← resolve token
      pure (Code.ofList [.push place.segment place.index])

/-- The code that builds the string constant in `token`. -/
def stringTerm (token : Token) : Pass σ Code := do
  let text ← required (token.contents? (← context).source)
  match Code.stringConstant? text with
  | some code => pure code
  | none => breakOff .stringTooLong

/-- A term, with at most the given number of terms around it. -/
def term : Nat → Pass σ Code
  | 0 => breakOff .boundExceeded
  | depth + 1 => do
      let token ← advance
      match KeywordConstant.ofKind? token.kind with
      | some constant => pure (Code.constant constant)
      | none =>
          match UnaryOperator.ofKind? token.kind with
          | some operator => do
              let operand ← term depth
              pure (operand.unary operator)
          | none =>
              match token.kind with
              | .integer value => pure (Code.ofList [.push .constant value])
              | .string => stringTerm token
              | .punctuation .leftParen => do
                  let code ← expressionOf (term depth)
                  expectMark .rightParen
                  pure code
              | .identifier => nameTerm (expressionOf (term depth)) token
              | actual => reject token.span (.grammatical (.unexpectedInExpression actual))

/-- An expression. -/
def expression : Pass σ Code := do
  expressionOf (term (← context).bound)

end Pass

end JackCompiler
