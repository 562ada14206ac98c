import JackCompiler.Text.Hidden

/-!
# Quoted and bracketed forms

A quoted form shows every character without ambiguity. NUL, tab, line feed, carriage return, the
backslash and the quote in use are written with a backslash, a hidden character by its code point,
and any other character as itself. Lists stand in brackets.
-/

namespace JackCompiler.Text

/-- A number in lower-case hexadecimal, without leading zeros. -/
def hexadecimal (number : Nat) : String :=
  String.ofList (Nat.toDigits 16 number)

/-- One character inside the given quotes. -/
def escaped (quote character : Char) : String :=
  match character with
  | '\x00' => "\\0"
  | '\t' => "\\t"
  | '\n' => "\\n"
  | '\r' => "\\r"
  | '\\' => "\\\\"
  | _ =>
      if character = quote then
        String.ofList ['\\', character]
      else if isHidden character then
        "\\u\x7b" ++ hexadecimal character.toNat ++ "\x7d"
      else
        String.singleton character

/-- A character in single quotes. -/
def quotedCharacter (character : Char) : String :=
  "'" ++ escaped '\'' character ++ "'"

/-- A text in double quotes. -/
def quotedText (text : String) : String :=
  text.toList.foldl (fun written character => written ++ escaped '"' character) "\"" ++ "\""

/-- Items in brackets, parted by commas. -/
def bracketed (items : List String) : String :=
  "[" ++ ", ".intercalate items ++ "]"

end JackCompiler.Text
