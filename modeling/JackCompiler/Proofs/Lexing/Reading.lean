import JackCompiler.Proofs.Lexing.Lexeme

/-!
# Readings of a text

The lexical grammar, said without a reader. A text falls apart into pieces from left to right. Each
piece is white space, a comment or a token, and is as long as it can be with what stands behind it
in view. `Reading` relates a text to such pieces and to what is left of it, and `Stuck` says why no
further piece can be split off. No order in which characters are looked at is fixed here.
-/

namespace JackCompiler

namespace Lexing

/-! ## Characters -/

/-- ASCII white space. -/
def Blank (character : Char) : Prop := character ∈ [' ', '\t', '\n', '\r', '\x0c']

/-- A decimal digit. -/
def Digit (character : Char) : Prop := '0' ≤ character ∧ character ≤ '9'

/-- A character that a name can start with, `[A-Za-z_]`. -/
def NameStart (character : Char) : Prop :=
  ('A' ≤ character ∧ character ≤ 'Z') ∨ ('a' ≤ character ∧ character ≤ 'z') ∨ character = '_'

/-- A character that a name can go on with, `[A-Za-z0-9_]`. -/
def NamePart (character : Char) : Prop := NameStart character ∨ Digit character

/-! ## Pieces -/

/-- Whether a piece of text is a token of a kind. -/
def Written (piece : List Char) : Token.Kind → Prop
  | .keyword word => piece = word.text.toList
  | .punctuation sign => piece = [sign.character]
  | .identifier => ∃ first others, piece = first :: others ∧ NameStart first ∧
      (∀ character ∈ others, NamePart character) ∧ ∀ word : Keyword, piece ≠ word.text.toList
  | .string => ∃ contents, piece = '"' :: (contents ++ ['"']) ∧
      (∀ character ∈ contents, Token.isStringCharacter character) ∧
      contents.length ≤ Token.maxStringLength
  | .integer value => piece ≠ [] ∧ (∀ character ∈ piece, Digit character) ∧
      Text.decimalValue piece = value.toNat ∧ value.toNat ≤ Token.maxInteger

/-- Whether a token of a kind ends in front of a text, so that it could not be longer. A slash in
front of a slash or a star is no token but opens a comment. -/
def Ends (rest : List Char) : Token.Kind → Prop
  | .keyword _ | .identifier => ∀ next ∈ rest.head?, ¬NamePart next
  | .integer _ => ∀ next ∈ rest.head?, ¬Digit next
  | .punctuation .slash => ∀ next ∈ rest.head?, next ≠ '/' ∧ next ≠ '*'
  | .punctuation _ | .string => True

/-- White space and comments, in front of a text. -/
inductive Trivia : List Char → List Char → Prop
  | blank {character : Char} {rest : List Char} (isBlank : Blank character) :
      Trivia [character] rest
  /-- A line comment goes up to the next line feed, or to the end. -/
  | lineComment {body rest : List Char} (inside : '\n' ∉ body)
      (ends : ∀ next ∈ rest.head?, next = '\n') : Trivia ('/' :: '/' :: body) rest
  /-- A block comment goes up to its first closing mark. -/
  | blockComment {body rest : List Char} (inside : ¬['*', '/'] <:+: body) :
      Trivia ('/' :: '*' :: (body ++ ['*', '/'])) rest

/-- A piece of text, with the kind of its token if it is one. -/
structure Segment where
  kind? : Option Token.Kind
  piece : List Char

/-- Whether a segment can be split off in front of a text. -/
def Segment.Fits (segment : Segment) (rest : List Char) : Prop :=
  match segment.kind? with
  | some kind => Written segment.piece kind ∧ Ends rest kind
  | none => Trivia segment.piece rest

/-- A text is read as segments up to what is left of it. -/
inductive Reading : List Segment → List Char → List Char → Prop
  | nil (rest : List Char) : Reading [] rest rest
  | cons {segment : Segment} {segments : List Segment} {middle rest : List Char}
      (fits : segment.Fits middle) (others : Reading segments middle rest) :
      Reading (segment :: segments) (segment.piece ++ middle) rest

/-- Why no segment can be split off from a text that is not empty. The text is given in three parts;
the error is located at the second. -/
inductive Stuck : List Char → List Char → List Char → LexicalError → Prop
  | unclosedComment {body : List Char} (inside : ¬['*', '/'] <:+: body) :
      Stuck [] ('/' :: '*' :: body) [] .unclosedComment
  | integerOutOfRange {digits rest : List Char} (some : digits ≠ [])
      (inside : ∀ character ∈ digits, Digit character)
      (ends : ∀ next ∈ rest.head?, ¬Digit next)
      (large : Token.maxInteger < Text.decimalValue digits) :
      Stuck [] digits rest .integerOutOfRange
  | stringTooLong {contents rest : List Char}
      (inside : ∀ character ∈ contents, Token.isStringCharacter character)
      (long : Token.maxStringLength < contents.length) :
      Stuck [] ('"' :: (contents ++ ['"'])) rest .stringTooLong
  | multilineString {contents rest : List Char} {character : Char}
      (inside : ∀ character ∈ contents, Token.isStringCharacter character)
      (isBreak : character = '\n' ∨ character = '\r') :
      Stuck [] ('"' :: (contents ++ [character])) rest .multilineString
  | unclosedString {contents : List Char}
      (inside : ∀ character ∈ contents, Token.isStringCharacter character) :
      Stuck [] ('"' :: contents) [] .unclosedString
  /-- Of a string constant with a character that no string holds, that character is at fault. -/
  | foreign {contents rest : List Char} {character : Char}
      (inside : ∀ character ∈ contents, Token.isStringCharacter character)
      (isForeign : character = '\x00' ∨ 128 ≤ character.toNat) :
      Stuck ('"' :: contents) [character] rest (.unexpectedCharacter character)
  | unexpected {rest : List Char} {character : Char} (notBlank : ¬Blank character)
      (notMark : ∀ sign : Punctuation, character ≠ sign.character) (notQuote : character ≠ '"')
      (notName : ¬NameStart character) (notDigit : ¬Digit character) :
      Stuck [] [character] rest (.unexpectedCharacter character)

/-- The characters of segments. -/
def characters (segments : List Segment) : List Char := segments.flatMap Segment.piece

/-- The tokens of segments of which the first begins at an offset. Each covers the bytes of its
piece. -/
def tokens (offset : Nat) : List Segment → List Token
  | [] => []
  | ⟨none, piece⟩ :: segments => tokens (offset + Token.byteLength piece) segments
  | ⟨some kind, piece⟩ :: segments =>
      ⟨kind, Span.ofBounds offset (offset + Token.byteLength piece)⟩ ::
        tokens (offset + Token.byteLength piece) segments

namespace Reading

variable {segments more : List Segment} {text middle rest : List Char}

/-- What is read and what is left make up the text. -/
theorem text_eq (reading : Reading segments text rest) : text = characters segments ++ rest := by
  induction reading with
  | nil => rfl
  | cons _ _ inductionHypothesis =>
      simp only [characters, List.flatMap_cons, List.append_assoc] at *
      rw [← inductionHypothesis]

/-- Readings follow one another. -/
theorem trans (first : Reading segments text middle) (second : Reading more middle rest) :
    Reading (segments ++ more) text rest := by
  induction first with
  | nil => exact second
  | cons fits _ inductionHypothesis => exact .cons fits (inductionHypothesis second)

end Reading

end Lexing

end JackCompiler
