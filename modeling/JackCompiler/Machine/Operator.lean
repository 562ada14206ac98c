import JackCompiler.Token.Kind

/-!
# Operators and keyword constants

What the marks and words of an expression compute.
-/

namespace JackCompiler

/-- An operator between two terms. -/
inductive BinaryOperator
  | add | sub | mul | div | and | or | lt | gt | eq
  deriving DecidableEq

namespace BinaryOperator

/-- The operator that a token stands for between two terms. -/
def ofKind? : Token.Kind → Option BinaryOperator
  | .punctuation .plus => some add
  | .punctuation .minus => some sub
  | .punctuation .star => some mul
  | .punctuation .slash => some div
  | .punctuation .ampersand => some and
  | .punctuation .pipe => some or
  | .punctuation .less => some lt
  | .punctuation .greater => some gt
  | .punctuation .equals => some eq
  | _ => none

end BinaryOperator

/-- An operator before a term. -/
inductive UnaryOperator
  /-- Arithmetic negation. -/
  | neg
  /-- Negation of every bit. -/
  | not
  deriving DecidableEq

namespace UnaryOperator

/-- The operator that a token stands for before a term. -/
def ofKind? : Token.Kind → Option UnaryOperator
  | .punctuation .minus => some neg
  | .punctuation .tilde => some not
  | _ => none

end UnaryOperator

/-- A word that stands for a value. -/
inductive KeywordConstant
  | true | false | null | this
  deriving DecidableEq

namespace KeywordConstant

/-- The constant that a token stands for. -/
def ofKind? : Token.Kind → Option KeywordConstant
  | .keyword .true => some true
  | .keyword .false => some false
  | .keyword .null => some null
  | .keyword .this => some this
  | _ => none

end KeywordConstant

end JackCompiler
