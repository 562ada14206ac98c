import JackCompiler.Text.Decimal
import JackCompiler.Text.Quoted

/-!
# Kinds of tokens

The alphabet of the language in tokens: keywords, punctuation marks, names and constants. Every
kind has a display name, which is how error messages speak about it, and the grammatical roles that
several kinds share are lists of kinds.
-/

namespace JackCompiler

/-- The reserved words of the language. -/
inductive Keyword
  | «class» | constructor | function | method | field | static | var
  | int | char | boolean | void
  | true | false | null | this
  | let | do | if | else | while | return
  deriving DecidableEq

namespace Keyword

/-- Every reserved word. -/
def all : List Keyword := [
  .class, .constructor, .function, .method, .field, .static, .var,
  .int, .char, .boolean, .void,
  .true, .false, .null, .this,
  .let, .do, .if, .else, .while, .return]

/-- A reserved word as it stands in a source. -/
def text : Keyword → String
  | .class => "class"
  | .constructor => "constructor"
  | .function => "function"
  | .method => "method"
  | .field => "field"
  | .static => "static"
  | .var => "var"
  | .int => "int"
  | .char => "char"
  | .boolean => "boolean"
  | .void => "void"
  | .true => "true"
  | .false => "false"
  | .null => "null"
  | .this => "this"
  | .let => "let"
  | .do => "do"
  | .if => "if"
  | .else => "else"
  | .while => "while"
  | .return => "return"

/-- The display name. -/
def name : Keyword → String
  | .class => "Class"
  | .constructor => "Constructor"
  | .function => "Function"
  | .method => "Method"
  | .field => "Field"
  | .static => "Static"
  | .var => "Var"
  | .int => "Int"
  | .char => "Char"
  | .boolean => "Boolean"
  | .void => "Void"
  | .true => "True"
  | .false => "False"
  | .null => "Null"
  | .this => "This"
  | .let => "Let"
  | .do => "Do"
  | .if => "If"
  | .else => "Else"
  | .while => "While"
  | .return => "Return"

/-- The reserved word with a given text. -/
def ofText? (text : String) : Option Keyword :=
  all.find? fun keyword => keyword.text == text

/-- A text is a reserved word exactly when it is that word's text. -/
theorem ofText?_eq_some_iff {text : String} {keyword : Keyword} :
    ofText? text = some keyword ↔ text = keyword.text := by
  constructor
  · intro found
    have same := List.find?_some found
    exact (eq_of_beq same).symm
  · rintro rfl
    cases keyword <;> decide

end Keyword

/-- The marks that are tokens by themselves. -/
inductive Punctuation
  | leftBrace | rightBrace | leftParen | rightParen | leftBracket | rightBracket
  | dot | comma | semicolon
  | plus | minus | star | slash | ampersand | pipe | less | greater | equals | tilde
  deriving DecidableEq

namespace Punctuation

/-- A mark as it stands in a source. -/
def character : Punctuation → Char
  | leftBrace => '\x7b'
  | rightBrace => '\x7d'
  | leftParen => '('
  | rightParen => ')'
  | leftBracket => '['
  | rightBracket => ']'
  | dot => '.'
  | comma => ','
  | semicolon => ';'
  | plus => '+'
  | minus => '-'
  | star => '*'
  | slash => '/'
  | ampersand => '&'
  | pipe => '|'
  | less => '<'
  | greater => '>'
  | equals => '='
  | tilde => '~'

/-- The mark with a given character. -/
def ofCharacter? : Char → Option Punctuation
  | '\x7b' => some leftBrace
  | '\x7d' => some rightBrace
  | '(' => some leftParen
  | ')' => some rightParen
  | '[' => some leftBracket
  | ']' => some rightBracket
  | '.' => some dot
  | ',' => some comma
  | ';' => some semicolon
  | '+' => some plus
  | '-' => some minus
  | '*' => some star
  | '/' => some slash
  | '&' => some ampersand
  | '|' => some pipe
  | '<' => some less
  | '>' => some greater
  | '=' => some equals
  | '~' => some tilde
  | _ => none

/-- The display name. -/
def name : Punctuation → String
  | leftBrace => "LBrace"
  | rightBrace => "RBrace"
  | leftParen => "LParen"
  | rightParen => "RParen"
  | leftBracket => "LBracket"
  | rightBracket => "RBracket"
  | dot => "Dot"
  | comma => "Comma"
  | semicolon => "Semicolon"
  | plus => "Plus"
  | minus => "Minus"
  | star => "Star"
  | slash => "Slash"
  | ampersand => "Amp"
  | pipe => "Pipe"
  | less => "Less"
  | greater => "Greater"
  | equals => "Eq"
  | tilde => "Tilde"

/-- A character is a mark exactly when it is that mark's character. -/
theorem ofCharacter?_eq_some_iff {character : Char} {mark : Punctuation} :
    ofCharacter? character = some mark ↔ character = mark.character := by
  constructor
  · intro found
    unfold ofCharacter? at found
    split at found <;> simp at found <;> subst found <;> rfl
  · rintro rfl
    cases mark <;> rfl

end Punctuation

namespace Token

/-- What a token is. Names and string constants do not carry their text; it is found in the source
through the token's span. -/
inductive Kind
  | keyword (word : Keyword)
  | punctuation (mark : Punctuation)
  | identifier
  | string
  /-- An integer constant, at most 32767. -/
  | integer (value : UInt16)
  deriving DecidableEq

namespace Kind

/-- The display name, which shows the value of an integer constant. -/
def name : Kind → String
  | keyword word => word.name
  | punctuation mark => mark.name
  | identifier => "Identifier"
  | string => "StringConst"
  | integer value => "IntConst(" ++ Text.decimal value.toNat ++ ")"

/-- The display names of a list of kinds, in brackets. -/
def names (kinds : List Kind) : String :=
  Text.bracketed (kinds.map name)

/-- The words that open a declaration of class variables. -/
def classVariableKinds : List Kind := [.keyword .static, .keyword .field]

/-- The words that open a declaration of a subroutine. -/
def subroutineKinds : List Kind := [.keyword .constructor, .keyword .function, .keyword .method]

/-- What can stand as the type of a variable. -/
def variableTypes : List Kind :=
  [.keyword .int, .keyword .char, .keyword .boolean, .identifier]

/-- What can stand as the return type of a subroutine. -/
def returnTypes : List Kind := .keyword .void :: variableTypes

/-- Whether the token opens a declaration of class variables. -/
def opensClassVariables (kind : Kind) : Bool := classVariableKinds.contains kind

/-- Whether the token opens a declaration of a subroutine. -/
def opensSubroutine (kind : Kind) : Bool := subroutineKinds.contains kind

end Kind

end Token

end JackCompiler
