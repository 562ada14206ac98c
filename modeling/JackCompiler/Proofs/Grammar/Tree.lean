import JackCompiler.Proofs.Grammar.Terminal
import JackCompiler.Symbol.Storage

/-!
# Syntax trees

The trees of the class grammar. A constructor is a production, and the yield of a tree is the
sequence of terminals at its leaves, so a sequence of terminals is derivable from the grammar
exactly when it is the yield of a tree. Nothing here looks at what names stand for.

    class           ::= "class" name "{" classVariables* subroutine* "}"
    classVariables  ::= ("static" | "field") variables
    variables       ::= type name ("," name)* ";"
    subroutine      ::= ("constructor" | "function" | "method") ("void" | type) name
                        "(" (parameter ("," parameter)*)? ")" "{" ("var" variables)* statements "}"
    parameter       ::= type name
    type            ::= "int" | "char" | "boolean" | name
    statements      ::= statement*
    statement       ::= "let" name ("[" expression "]")? "=" expression ";"
                      | "if" "(" expression ")" block ("else" block)?
                      | "while" "(" expression ")" block
                      | "do" call ";"
                      | "return" expression? ";"
    block           ::= "{" statements "}"
    expression      ::= term (operator term)*
    term            ::= integer | string | "true" | "false" | "null" | "this" | name
                      | name "[" expression "]" | call | "(" expression ")" | ("-" | "~") term
    call            ::= name "(" arguments ")" | name "." name "(" arguments ")"
    arguments       ::= (expression ("," expression)*)?
-/

namespace JackCompiler

namespace BinaryOperator

/-- The mark of an operator. -/
def mark : BinaryOperator → Punctuation
  | add => .plus
  | sub => .minus
  | mul => .star
  | div => .slash
  | and => .ampersand
  | or => .pipe
  | lt => .less
  | gt => .greater
  | eq => .equals

/-- A kind stands for an operator exactly when it is the operator's mark. -/
theorem ofKind?_eq_some_iff {kind : Token.Kind} {operator : BinaryOperator} :
    ofKind? kind = some operator ↔ kind = .punctuation operator.mark := by
  constructor
  · intro found
    unfold ofKind? at found
    split at found <;> cases found <;> rfl
  · rintro rfl
    cases operator <;> rfl

end BinaryOperator

namespace UnaryOperator

/-- The mark of an operator. -/
def mark : UnaryOperator → Punctuation
  | neg => .minus
  | not => .tilde

/-- A kind stands for an operator exactly when it is the operator's mark. -/
theorem ofKind?_eq_some_iff {kind : Token.Kind} {operator : UnaryOperator} :
    ofKind? kind = some operator ↔ kind = .punctuation operator.mark := by
  constructor
  · intro found
    unfold ofKind? at found
    split at found <;> cases found <;> rfl
  · rintro rfl
    cases operator <;> rfl

end UnaryOperator

namespace KeywordConstant

/-- The keyword of a constant. -/
def word : KeywordConstant → Keyword
  | true => .true
  | false => .false
  | null => .null
  | this => .this

/-- A kind stands for a constant exactly when it is the constant's keyword. -/
theorem ofKind?_eq_some_iff {kind : Token.Kind} {constant : KeywordConstant} :
    ofKind? kind = some constant ↔ kind = .keyword constant.word := by
  constructor
  · intro found
    unfold ofKind? at found
    split at found <;> cases found <;> rfl
  · rintro rfl
    cases constant <;> rfl

end KeywordConstant

namespace Grammar

/-! ## Expressions -/

mutual

/-- A term and what is joined to it by operators. -/
inductive Expression
  | mk (first : Term) (others : Operands)

/-- Further terms, each behind its operator. -/
inductive Operands
  | nil
  | cons (operator : BinaryOperator) (operand : Term) (others : Operands)

/-- What operators join: constants, variables, elements of arrays, calls, expressions in
parentheses, and terms behind an operator. -/
inductive Term
  | integer (value : UInt16)
  | string (contents : String)
  | constant (value : KeywordConstant)
  | name (text : String)
  | element (array : String) (index : Expression)
  | call (call : Call)
  | group (inner : Expression)
  | unary (operator : UnaryOperator) (operand : Term)

/-- A call of a subroutine, with its arguments in parentheses. -/
inductive Call
  /-- A call of a method of the current object. -/
  | own (subroutine : String) (arguments : Arguments)
  /-- A call by two names, of which the first is a variable or a class. -/
  | qualified (owner subroutine : String) (arguments : Arguments)

/-- The arguments of a call, with commas between them. -/
inductive Arguments
  | nil
  | cons (first : Expression) (others : Arguments)

end

mutual

/-- The terminals of an expression. -/
def Expression.yield : Expression → List Terminal
  | .mk first others => first.yield ++ others.yield

/-- The terminals of operands, each behind its operator. -/
def Operands.yield : Operands → List Terminal
  | .nil => []
  | .cons operator operand others => .mark operator.mark :: operand.yield ++ others.yield

/-- The terminals of a term. -/
def Term.yield : Term → List Terminal
  | .integer value => [.integer value]
  | .string contents => [.string contents]
  | .constant value => [.keyword value.word]
  | .name text => [.name text]
  | .element array index =>
      [.name array, .mark .leftBracket] ++ index.yield ++ [.mark .rightBracket]
  | .call call => call.yield
  | .group inner => [.mark .leftParen] ++ inner.yield ++ [.mark .rightParen]
  | .unary operator operand => .mark operator.mark :: operand.yield

/-- The terminals of a call, the parentheses around its arguments included. -/
def Call.yield : Call → List Terminal
  | .own subroutine arguments =>
      [.name subroutine, .mark .leftParen] ++ arguments.yield ++ [.mark .rightParen]
  | .qualified owner subroutine arguments =>
      [.name owner, .mark .dot, .name subroutine, .mark .leftParen] ++ arguments.yield ++
        [.mark .rightParen]

/-- The terminals of arguments without the parentheses around them. -/
def Arguments.yield : Arguments → List Terminal
  | .nil => []
  | .cons first others => first.yield ++ others.following

/-- The yield of arguments that stand behind others, each with a comma in front. -/
def Arguments.following : Arguments → List Terminal
  | .nil => []
  | .cons first others => .mark .comma :: first.yield ++ others.following

end

/-- Arguments that stand behind others are like arguments that do not, but for a comma. -/
theorem Arguments.following_eq {arguments : Arguments} (some : arguments ≠ .nil) :
    arguments.following = .mark .comma :: arguments.yield := by
  cases arguments with
  | nil => exact absurd rfl some
  | cons first others => rfl

/-- How many arguments there are. -/
def Arguments.count : Arguments → Nat
  | .nil => 0
  | .cons _ others => others.count + 1

/-! ## Statements -/

mutual

/-- The five statements, of which an assignment is to a variable or to an element. -/
inductive Statement
  | assign (target : String) (value : Expression)
  | assignElement (array : String) (index value : Expression)
  | choice (test : Expression) (body : Statements) (alternative : Alternative)
  | loop (test : Expression) (body : Statements)
  | perform (call : Call)
  /-- Without a value it returns zero. -/
  | return (value : Option Expression)

/-- The statements of a block, one behind the other. -/
inductive Statements
  | nil
  | cons (first : Statement) (others : Statements)

/-- What a choice does where its test fails, if it says so. -/
inductive Alternative
  | absent
  | present (body : Statements)

end

mutual

/-- The terminals of a statement. -/
def Statement.yield : Statement → List Terminal
  | .assign target value =>
      [.keyword .let, .name target, .mark .equals] ++ value.yield ++ [.mark .semicolon]
  | .assignElement array index value =>
      [.keyword .let, .name array, .mark .leftBracket] ++ index.yield ++
        [.mark .rightBracket, .mark .equals] ++ value.yield ++ [.mark .semicolon]
  | .choice test body alternative =>
      [.keyword .if, .mark .leftParen] ++ test.yield ++ [.mark .rightParen, .mark .leftBrace] ++
        body.yield ++ [.mark .rightBrace] ++ alternative.yield
  | .loop test body =>
      [.keyword .while, .mark .leftParen] ++ test.yield ++ [.mark .rightParen, .mark .leftBrace] ++
        body.yield ++ [.mark .rightBrace]
  | .perform call => [.keyword .do] ++ call.yield ++ [.mark .semicolon]
  | .return none => [.keyword .return, .mark .semicolon]
  | .return (some value) => [.keyword .return] ++ value.yield ++ [.mark .semicolon]

/-- The terminals of statements. -/
def Statements.yield : Statements → List Terminal
  | .nil => []
  | .cons first others => first.yield ++ others.yield

/-- The terminals of an alternative: none where it is absent. -/
def Alternative.yield : Alternative → List Terminal
  | .absent => []
  | .present body => [.keyword .else, .mark .leftBrace] ++ body.yield ++ [.mark .rightBrace]

end

/-! ## Declarations -/

/-- The type of a variable. -/
inductive TypeName
  | int
  | char
  | boolean
  | named (text : String)

namespace TypeName

/-- The terminal that a type is read as. -/
def terminal : TypeName → Terminal
  | int => .keyword .int
  | char => .keyword .char
  | boolean => .keyword .boolean
  | named text => .name text

/-- The type as it is written. -/
def text : TypeName → String
  | int => Keyword.text .int
  | char => Keyword.text .char
  | boolean => Keyword.text .boolean
  | named text => text

end TypeName

/-- One or more variables of one type. -/
structure Variables where
  type : TypeName
  first : String
  others : List String

namespace Variables

/-- The names of all variables of a group. -/
def names (group : Variables) : List String := group.first :: group.others

/-- The terminals of a group of variables: its type, and the names with commas between them. -/
def yield (group : Variables) : List Terminal :=
  [group.type.terminal, .name group.first] ++
    group.others.flatMap (fun name => [.mark .comma, .name name]) ++ [.mark .semicolon]

/-- The type stands in front of the names. -/
theorem yield_eq (group : Variables) : group.yield = group.type.terminal ::
    ((.name group.first :: group.others.flatMap (fun name => [.mark .comma, .name name])) ++
      [.mark .semicolon]) := rfl

end Variables

/-- Variables of a class, static ones or fields. -/
structure ClassVariables where
  storage : ClassStorage
  group : Variables

/-- The reserved word in front of the variables of a class. -/
def storageWord : ClassStorage → Keyword
  | .static => .static
  | .field => .field

/-- The terminals of the variables of a class. -/
def ClassVariables.yield (declared : ClassVariables) : List Terminal :=
  .keyword (storageWord declared.storage) :: declared.group.yield

/-- A parameter of a subroutine. -/
structure Parameter where
  type : TypeName
  name : String

/-- The terminals of a parameter. -/
def Parameter.yield (parameter : Parameter) : List Terminal :=
  [parameter.type.terminal, .name parameter.name]

/-- The yield of parameters with commas between them. -/
def parametersYield : List Parameter → List Terminal
  | [] => []
  | first :: others =>
      first.yield ++ others.flatMap (fun parameter => .mark .comma :: parameter.yield)

/-- The yield of declarations of local variables. -/
def localsYield (locals : List Variables) : List Terminal :=
  locals.flatMap fun group => .keyword .var :: group.yield

/-- The kinds of subroutines of a class. -/
inductive SubroutineKind
  | constructor
  | function
  | method
  deriving DecidableEq

/-- The reserved word in front of a subroutine. -/
def SubroutineKind.word : SubroutineKind → Keyword
  | constructor => .constructor
  | function => .function
  | method => .method

/-- The terminal of a return type; none stands for `void`. -/
def resultTerminal : Option TypeName → Terminal
  | none => .keyword .void
  | some type => type.terminal

/-- A subroutine of a class, whose return type is none where it is `void`. -/
structure Subroutine where
  kind : SubroutineKind
  result : Option TypeName
  name : String
  parameters : List Parameter
  locals : List Variables
  body : Statements

/-- The terminals of a subroutine. -/
def Subroutine.yield (subroutine : Subroutine) : List Terminal :=
  [.keyword subroutine.kind.word, resultTerminal subroutine.result, .name subroutine.name,
      .mark .leftParen] ++
    parametersYield subroutine.parameters ++ [.mark .rightParen, .mark .leftBrace] ++
    localsYield subroutine.locals ++ subroutine.body.yield ++ [.mark .rightBrace]

/-- A class: its variables, and behind them its subroutines. -/
structure ClassDeclaration where
  name : String
  groups : List ClassVariables
  subroutines : List Subroutine

/-- The terminals of a class. -/
def ClassDeclaration.yield (declaration : ClassDeclaration) : List Terminal :=
  [.keyword .class, .name declaration.name, .mark .leftBrace] ++
    declaration.groups.flatMap ClassVariables.yield ++
    declaration.subroutines.flatMap Subroutine.yield ++ [.mark .rightBrace]

end Grammar

end JackCompiler
