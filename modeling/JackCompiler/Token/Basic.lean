import JackCompiler.Span
import JackCompiler.Token.Kind

/-!
# Tokens

A token is a kind and the span it was read from.
-/

namespace JackCompiler

/-- A token of a source text. -/
structure Token where
  kind : Token.Kind
  span : Span
  deriving DecidableEq

namespace Token

/-- The source text of a token, if its span lies in the source. -/
def text? (token : Token) (source : String) : Option String :=
  token.span.text? source

/-- What a string constant says: its source text without the quotes. -/
def contents? (token : Token) (source : String) : Option String :=
  (token.span.offset 1 (-1)).text? source

/-- The written form, `Token(KIND, LO..HI)`. -/
def text (token : Token) : String :=
  "Token(" ++ token.kind.name ++ ", " ++ token.span.text ++ ")"

end Token

end JackCompiler
