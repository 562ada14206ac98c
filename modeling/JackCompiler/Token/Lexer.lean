import JackCompiler.Diagnostic
import JackCompiler.Token.Stream

/-!
# Reading tokens from text

A text is read from left to right, one token, blank or comment at a time. Tokens are as long as
possible. Blanks and comments leave no token, and the first stretch that is none of these ends the
reading with an error.
-/

namespace JackCompiler

namespace Token

/-- The largest integer constant. -/
def maxInteger : Nat := 32767

/-- The largest number of characters in a string constant. -/
def maxStringLength : Nat := 65535

/-- Blanks are the space, tab, line feed, form feed and carriage return. -/
def isBlank (character : Char) : Bool :=
  character = ' ' || character = '\t' || character = '\n' || character = '\r'
    || character = '\x0c'

/-- Whether a name or keyword can start with a character: ASCII letters and the underscore. -/
def startsName (character : Char) : Bool := character.isAlpha || character = '_'

/-- Whether a name or keyword can go on with a character: also ASCII digits. -/
def continuesName (character : Char) : Bool := character.isAlphanum || character = '_'

/-- The number of bytes that characters take in UTF-8. -/
def byteLength (characters : List Char) : Nat :=
  characters.foldl (fun size character => size + character.utf8Size) 0

private theorem foldl_utf8Size (characters : List Char) (size : Nat) :
    characters.foldl (fun size character => size + character.utf8Size) size =
      size + (String.ofList characters).utf8ByteSize := by
  induction characters generalizing size with
  | nil => simp
  | cons character rest inductionHypothesis =>
      rw [List.foldl_cons, inductionHypothesis, String.ofList_cons]
      simp
      omega

/-- Characters take as many bytes as the text they make up. -/
theorem byteLength_eq (characters : List Char) :
    byteLength characters = (String.ofList characters).utf8ByteSize := by
  simp [byteLength, foldl_utf8Size]

/-- A stretch of text that was read: its size in bytes, what stands after it, and the kind of its
token unless it was blank or a comment. -/
structure Lexeme where
  kind? : Option Kind
  size : Nat
  rest : List Char

/-- A stretch of text that cannot be read, by its distance in bytes from where reading began. -/
structure Fault where
  error : LexicalError
  distance : Nat
  size : Nat

/-- A line comment goes up to the next line feed, which it leaves unread. -/
def lineComment (afterMark : List Char) : Lexeme :=
  let body := afterMark.takeWhile (· ≠ '\n')
  ⟨none, 2 + byteLength body, afterMark.dropWhile (· ≠ '\n')⟩

/-- Looks for the end of a block comment, which is its first closing mark; `size` counts the bytes
read before. -/
def closeComment? (size : Nat) : List Char → Option (Nat × List Char)
  | [] => none
  | '*' :: '/' :: rest => some (size + 2, rest)
  | character :: rest => closeComment? (size + character.utf8Size) rest

/-- A block comment, after its opening mark. -/
def blockComment (afterMark : List Char) : Except Fault Lexeme :=
  match closeComment? 2 afterMark with
  | some (size, rest) => .ok ⟨none, size, rest⟩
  | none => .error ⟨.unclosedComment, 0, 2 + byteLength afterMark⟩

/-- How a string constant goes on after its opening quote. -/
inductive StringEnd
  | closed (size : Nat) (rest : List Char)
  | lineBreak (size : Nat)
  | unclosed (size : Nat)
  /-- A character that no string holds, after `size` bytes. -/
  | foreign (character : Char) (size : Nat)

/-- Looks for the end of a string constant; `size` counts the bytes read before. Strings hold every
ASCII character but NUL, the quote and line breaks; there are no escapes. -/
def stringEnd (size : Nat) : List Char → StringEnd
  | [] => .unclosed size
  | character :: rest =>
      if character = '"' then .closed (size + 1) rest
      else if character = '\n' || character = '\r' then .lineBreak (size + 1)
      else if character = '\x00' || 128 ≤ character.toNat then .foreign character size
      else stringEnd (size + 1) rest

/-- A string constant, after its opening quote. -/
def stringConstant (afterQuote : List Char) : Except Fault Lexeme :=
  match stringEnd 1 afterQuote with
  | .closed size rest =>
      if maxStringLength < size - 2 then .error ⟨.stringTooLong, 0, size⟩
      else .ok ⟨some .string, size, rest⟩
  | .lineBreak size => .error ⟨.multilineString, 0, size⟩
  | .unclosed size => .error ⟨.unclosedString, 0, size⟩
  | .foreign character size =>
      .error ⟨.unexpectedCharacter character, size, character.utf8Size⟩

/-- A name or keyword, whose first character is `first`. -/
def word (first : Char) (following : List Char) : Lexeme :=
  let characters := first :: following.takeWhile continuesName
  let kind :=
    match Keyword.ofText? (String.ofList characters) with
    | some keyword => Kind.keyword keyword
    | none => Kind.identifier
  ⟨some kind, characters.length, following.dropWhile continuesName⟩

/-- An integer constant, whose first digit is `first`. As with every token, digits beyond the
longest span do not count. -/
def integerConstant (first : Char) (following : List Char) : Except Fault Lexeme :=
  let digits := first :: following.takeWhile Char.isDigit
  let value := Text.decimalValue (digits.take Span.maxLength)
  if value ≤ maxInteger then
    .ok ⟨some (.integer (UInt16.ofNat value)), digits.length, following.dropWhile Char.isDigit⟩
  else
    .error ⟨.integerOutOfRange, 0, digits.length⟩

/-- Reads one token, blank or comment from the start of a text that is not empty. -/
def lexeme (first : Char) (following : List Char) : Except Fault Lexeme :=
  if first = '/' then
    match following with
    | '/' :: afterMark => .ok (lineComment afterMark)
    | '*' :: afterMark => blockComment afterMark
    | _ => .ok ⟨some (.punctuation .slash), 1, following⟩
  else if isBlank first then
    .ok ⟨none, 1, following⟩
  else
    match Punctuation.ofCharacter? first with
    | some mark => .ok ⟨some (.punctuation mark), 1, following⟩
    | none =>
        if first = '"' then stringConstant following
        else if startsName first then .ok (word first following)
        else if first.isDigit then integerConstant first following
        else .error ⟨.unexpectedCharacter first, 0, first.utf8Size⟩

private theorem length_dropWhile_le (keep : Char → Bool) (characters : List Char) :
    (characters.dropWhile keep).length ≤ characters.length :=
  (List.dropWhile_sublist keep).length_le

private theorem length_closeComment? {size total : Nat} {characters rest : List Char}
    (closed : closeComment? size characters = some (total, rest)) :
    rest.length ≤ characters.length := by
  fun_induction closeComment? size characters with
  | case1 => cases closed
  | case2 size after =>
      cases closed
      simp
      omega
  | case3 size character after _ inductionHypothesis =>
      have shorter := inductionHypothesis closed
      simp
      omega

private theorem length_stringEnd {size total : Nat} {characters rest : List Char}
    (closed : stringEnd size characters = .closed total rest) :
    rest.length ≤ characters.length := by
  induction characters generalizing size with
  | nil => cases closed
  | cons character after inductionHypothesis =>
      unfold stringEnd at closed
      split at closed
      · cases closed
        simp
      · split at closed
        · cases closed
        · split at closed
          · cases closed
          · have shorter := inductionHypothesis closed
            simp
            omega

/-- What is left after a token, blank or comment is no longer than what followed its first
character. -/
theorem Lexeme.length_rest_le {first : Char} {following : List Char} {read : Lexeme}
    (success : lexeme first following = .ok read) : read.rest.length ≤ following.length := by
  unfold lexeme at success
  split at success
  · split at success
    · next afterMark =>
        cases success
        have shorter := length_dropWhile_le (· ≠ '\n') afterMark
        simp only [lineComment, List.length_cons]
        omega
    · next afterMark =>
        unfold blockComment at success
        split at success
        · next size rest closed =>
            cases success
            have shorter := length_closeComment? closed
            simp
            omega
        · cases success
    · cases success
      simp
  · split at success
    · cases success
      simp
    · split at success
      · cases success
        simp
      · split at success
        · unfold stringConstant at success
          split at success
          · next size rest closed =>
              split at success
              · cases success
              · cases success
                exact length_stringEnd closed
          · cases success
          · cases success
          · cases success
        · split at success
          · cases success
            exact length_dropWhile_le continuesName following
          · split at success
            · unfold integerConstant at success
              simp only at success
              split at success
              · cases success
                exact length_dropWhile_le Char.isDigit following
              · cases success
            · cases success

/-- Reads all tokens of `characters`, which begin at byte `offset`; `tokens` holds those read
before, the latest first. -/
def readAll (offset : Nat) (tokens : List Token) (characters : List Char) :
    Except (Located LexicalError) (List Token) :=
  match characters with
  | [] => .ok tokens.reverse
  | first :: following =>
      match reading : lexeme first following with
      | .error fault =>
          let start := offset + fault.distance
          .error ((Span.ofBounds start (start + fault.size)).locate fault.error)
      | .ok read =>
          have _shorter := Lexeme.length_rest_le reading
          let stop := offset + read.size
          let tokens :=
            match read.kind? with
            | some kind => ⟨kind, Span.ofBounds offset stop⟩ :: tokens
            | none => tokens
          readAll stop tokens read.rest
termination_by characters.length
decreasing_by
  simp
  omega

end Token

namespace TokenStream

/-- Reads a whole source text into a stream at its start. -/
def ofText (source : String) : Except (Located LexicalError) TokenStream :=
  (Token.readAll 0 [] source.toList).map fun tokens => .ofTokens tokens source.utf8ByteSize

end TokenStream

end JackCompiler
