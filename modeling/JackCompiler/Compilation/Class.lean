import JackCompiler.Compilation.Statement

/-!
# Classes

    class            ::= "class" name "{" classVariables* subroutine* "}"
    classVariables   ::= ("static" | "field") type name ("," name)* ";"
    subroutine       ::= ("constructor" | "function" | "method") ("void" | type) name
                         "(" parameters ")" "{" localVariables* statements "}"
    parameters       ::= (type name ("," type name)*)?
    localVariables   ::= "var" type name ("," name)* ";"
    type             ::= "int" | "char" | "boolean" | name

The code of a class is that of its subroutines, in order. Each starts with a `function` instruction
that counts its locals. A constructor then finds memory for the object, and a method takes the
object it is called on, which is passed before the declared parameters.
-/

namespace JackCompiler

namespace Pass

variable {σ : Type}

/-- One declaration of class variables. -/
def classVariables : Pass σ Unit := do
  let keyword ← expectAny Token.Kind.classVariableKinds
  let storage : ClassStorage :=
    if keyword.kind = .keyword .static then .static else .field
  let type ← typeName
  separated (fun () => do defineInClass (← name) type storage) ()
  expectMark .semicolon

/-- Defines a parameter, or the object that a method is called on. -/
def defineParameter (name type : String) : Pass σ Unit :=
  defineInSubroutine .parameters name type .argument

/-- The parameters of a subroutine with their parentheses. -/
def parameters : Pass σ Unit := do
  expectMark .leftParen
  if ← take (.punctuation .rightParen) then
    pure ()
  else
    separated (fun () => do
      let type ← typeName
      defineParameter (← name) type) ()
    expectMark .rightParen

/-- One declaration of local variables. Yields how many it declares. -/
def localVariables : Pass σ UInt16 := do
  let _ ← expect (.keyword .var)
  let type ← typeName
  let count ← separated (fun count => do
    defineInSubroutine .localVariables (← name) type .local
    if count = 65535 then breakOff .countOverflow else pure (count + 1)) (0 : UInt16)
  expectMark .semicolon
  pure count

/-- All declarations of local variables. Yields how many they declare. -/
def allLocalVariables : Pass σ UInt16 :=
  whileNext (· == .keyword .var)
    (fun count => do sum .localVariables count (← localVariables)) (0 : UInt16)

/-- What a subroutine does before its body, by its keyword. -/
def prologue (keyword : Token.Kind) (fieldCount : UInt16) : Code :=
  match keyword with
  | .keyword .constructor =>
      Code.ofList [.push .constant fieldCount, .call Library.allocate 1, .pop .pointer 0]
  | .keyword .method => Code.ofList [.push .argument 0, .pop .pointer 0]
  | _ => .empty

variable [LabelSource σ]

/-- The body of a subroutine. Yields the number of its locals and its code. -/
def subroutineBody : Pass σ (UInt16 × Code) := do
  expectMark .leftBrace
  let locals ← allLocalVariables
  let body ← statements
  expectMark .rightBrace
  pure (locals, body)

/-- A subroutine. -/
def subroutine : Pass σ Code := do
  let keyword ← expectAny Token.Kind.subroutineKinds
  openSubroutine
  let _ ← expectAny Token.Kind.returnTypes
  let ownName ← name
  let owner ← className
  if keyword.kind = .keyword .method then
    defineParameter "this" owner
  parameters
  let (locals, body) ← subroutineBody
  let header := Code.ofList [.function (owner ++ "." ++ ownName) locals]
  pure (header ++ prologue keyword.kind (← state).scope.fieldCount ++ body)

/-- Sets the name of the class. -/
def setClassName (className : String) : Pass σ Unit := do
  let current ← state
  setState { current with className }

/-- A class, up to the end of the source. -/
def classDeclaration : Pass σ Code := do
  let _ ← expect (.keyword .class)
  setClassName (← name)
  expectMark .leftBrace
  whileNext Token.Kind.opensClassVariables (fun () => classVariables) ()
  let code ← whileNext Token.Kind.opensSubroutine
    (fun code => do pure (code ++ (← subroutine))) .empty
  expectMark .rightBrace
  match ← peek? with
  | some token => reject token.span (.grammatical (.trailingInput token.kind))
  | none => pure code

end Pass

end JackCompiler
