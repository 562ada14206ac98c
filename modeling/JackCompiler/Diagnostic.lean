import JackCompiler.Text.Quoted
import JackCompiler.Token.Basic

/-!
# Diagnostics

Everything that can be wrong with a source text, as causes. The wording is in the `message`
functions alone. A located cause becomes an error for the reader once the name of its unit and the
source are at hand.
-/

namespace JackCompiler

/-- Why a text cannot be read as tokens. -/
inductive LexicalError
  | multilineString
  | unclosedString
  | unclosedComment
  | integerOutOfRange
  | stringTooLong
  | unexpectedCharacter (character : Char)
  deriving DecidableEq

namespace LexicalError

/-- The error as the reader is told it. -/
def message : LexicalError → String
  | multilineString => "string literal crosses a line boundary"
  | unclosedString => "unclosed string literal"
  | unclosedComment => "unclosed block comment"
  | integerOutOfRange => "integer constant is greater than 32767"
  | stringTooLong => "string literal is longer than 65535 characters"
  | unexpectedCharacter character =>
      "unexpected character " ++ Text.quotedCharacter character

end LexicalError

/-- Why a sequence of tokens is not a class. -/
inductive SyntaxError
  /-- One token alone could have followed. -/
  | unexpected (expected actual : Token.Kind)
  /-- One of several tokens could have followed. -/
  | unexpectedAny (expected : List Token.Kind) (actual : Token.Kind)
  /-- No expression goes on with this token. -/
  | unexpectedInExpression (actual : Token.Kind)
  | unexpectedEnd
  /-- The class is complete, but there is more. -/
  | trailingInput (actual : Token.Kind)
  deriving DecidableEq

namespace SyntaxError

/-- The error as the reader is told it. -/
def message : SyntaxError → String
  | unexpected expected actual =>
      "expected token " ++ expected.name ++ ", but got " ++ actual.name
  | unexpectedAny expected actual =>
      "expected one of " ++ Token.Kind.names expected ++ ", but got " ++ actual.name
  | unexpectedInExpression actual => "unexpected token " ++ actual.name ++ " in expression"
  | unexpectedEnd => "unexpected end of input"
  | trailingInput actual => "expected end of input, but got " ++ actual.name

end SyntaxError

/-- What the target machine counts in a 16-bit word. -/
inductive Countable
  | classVariables
  | localVariables
  | parameters
  | arguments
  deriving DecidableEq

namespace Countable

/-- The plural that messages use. -/
def plural : Countable → String
  | classVariables => "class variables"
  | localVariables => "local variables"
  | parameters => "parameters"
  | arguments => "arguments"

end Countable

/-- Why a source is rejected. -/
inductive ErrorKind
  | lexical (error : LexicalError)
  | unresolvedSymbol (name : String)
  /-- More items than a 16-bit word can count. -/
  | limitExceeded (items : Countable)
  | grammatical (error : SyntaxError)
  deriving DecidableEq

namespace ErrorKind

/-- The error as the reader is told it, without its place. -/
def message : ErrorKind → String
  | lexical error => error.message
  | unresolvedSymbol name => name ++ " is not defined"
  | limitExceeded items => "too many " ++ items.plural ++ ", the limit is 65535"
  | grammatical error => error.message

end ErrorKind

/-- An error that ends the compilation of a unit, with its place as a reader counts it. -/
structure Error where
  /-- The name of the unit, usually the name of its file. -/
  unit : String
  position : Position
  kind : ErrorKind
  deriving DecidableEq

namespace Error

/-- Finds the position of a located cause in the source of its unit. A span that starts inside a
character has none. -/
def locate? (unit source : String) (cause : Located ErrorKind) : Option Error :=
  (cause.span.position? source).map fun position => ⟨unit, position, cause.value⟩

/-- The error as the reader is told it, `UNIT:LINE:COLUMN: TEXT`. -/
def message (error : Error) : String :=
  error.unit ++ ":" ++ error.position.text ++ ": " ++ error.kind.message

end Error

end JackCompiler
