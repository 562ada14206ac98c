import JackCompiler.Proofs.Lexing.Specification
import Mathlib.Data.List.Basic

/-!
# Reading across a line break

A line feed ends whatever the reader is at, but for a block comment and a string constant: names,
numbers, marks and line comments before it are those that they would be at the end of the text, and
behind it the reader begins anew. So a text that can be read leaves the text behind a line break to
be read as if it stood alone, further on by the bytes before it, and a text that cannot be read goes
wrong as it would alone. Only an unclosed string constant is told apart: the line break ends it.

No bound on the texts is needed. Tokens that are longer than a span keep their clipped lengths
wherever they stand.
-/

namespace JackCompiler

/-- A span further on in a text. -/
def Span.shift (distance : Nat) (span : Span) : Span := { span with lo := span.lo + distance }

/-- A span that is further on has its bounds further on. -/
theorem Span.shift_ofBounds (distance lo hi : Nat) :
    (Span.ofBounds lo hi).shift distance = Span.ofBounds (lo + distance) (hi + distance) := by
  simp [Span.shift, Span.ofBounds, Nat.add_sub_add_right]

/-- A located value further on in a text. -/
def Located.shift {α : Type} (distance : Nat) (located : Located α) : Located α :=
  { located with span := located.span.shift distance }

/-- A token further on in a text. -/
def Token.shift (distance : Nat) (token : Token) : Token :=
  { token with span := token.span.shift distance }

namespace Lexing

open Token (lexeme readAll)

variable {first : Char} {following : List Char}

/-! ## One segment -/

section Segments

variable (more : List Char)

/-- A run of characters that goes on with no line feed ends in front of one. -/
theorem takeWhile_lineBreak (keep : Char → Bool) (ends : keep '\n' = false)
    (characters : List Char) :
    (characters ++ '\n' :: more).takeWhile keep = characters.takeWhile keep ∧
      (characters ++ '\n' :: more).dropWhile keep = characters.dropWhile keep ++ '\n' :: more := by
  obtain ⟨inside, rest, rfl, all, stops⟩ := exists_run keep characters
  have stopsBehind : ∀ next ∈ (rest ++ '\n' :: more).head?, ¬keep next := by
    cases rest with
    | nil =>
        rintro next ⟨⟩
        simp [ends]
    | cons next others => exact stops
  rw [List.append_assoc, takeWhile_run all stopsBehind, dropWhile_run all stopsBehind,
    takeWhile_run all stops, dropWhile_run all stops]
  exact ⟨rfl, rfl⟩

/-- What reading yields when a line break stands behind the text: what was read leaves more, and an
unclosed string constant is ended by the line break. -/
def behind : Except Token.Fault Token.Lexeme → Except Token.Fault Token.Lexeme
  | .ok read => .ok { read with rest := read.rest ++ '\n' :: more }
  | .error fault =>
      if fault.error = .unclosedString then
        .error ⟨.multilineString, fault.distance, fault.size + 1⟩
      else
        .error fault

/-- A line comment ends at the line break, and leaves what is behind it. -/
theorem lineComment_lineBreak (afterMark : List Char) :
    .ok (Token.lineComment (afterMark ++ '\n' :: more)) =
      behind more (.ok (Token.lineComment afterMark)) := by
  have ends : (decide ('\n' ≠ '\n')) = false := by decide
  obtain ⟨taken, left⟩ := takeWhile_lineBreak more (· ≠ '\n') ends afterMark
  simp only [Token.lineComment, behind, taken, left]

/-- A block comment that is closed is closed at the same place. -/
theorem blockComment_lineBreak {afterMark : List Char} {read : Token.Lexeme}
    (success : Token.blockComment afterMark = .ok read) :
    Token.blockComment (afterMark ++ '\n' :: more) = behind more (.ok read) := by
  rcases exists_closing afterMark with inside | ⟨body, others, rfl, inside⟩
  · rw [Token.blockComment, closeComment?_eq_none inside] at success
    cases success
  · rw [Token.blockComment, closeComment?_append inside] at success
    cases success
    rw [List.append_assoc, Token.blockComment]
    simp only [List.cons_append, closeComment?_append inside]
    rfl

/-- How a string constant goes on when a line break stands behind the text. -/
def stringEndBehind : Token.StringEnd → Token.StringEnd
  | .closed size rest => .closed size (rest ++ '\n' :: more)
  | .lineBreak size => .lineBreak size
  | .unclosed size => .lineBreak (size + 1)
  | .foreign character size => .foreign character size

/-- The end of a string constant is in front of the line break, or the line break is an error. -/
theorem stringEnd_lineBreak (size : Nat) (characters : List Char) :
    Token.stringEnd size (characters ++ '\n' :: more) =
      stringEndBehind more (Token.stringEnd size characters) := by
  induction characters generalizing size with
  | nil => rfl
  | cons character characters inductionHypothesis =>
      rw [List.cons_append, Token.stringEnd, Token.stringEnd, inductionHypothesis]
      split
      · rfl
      · split
        · rfl
        · split <;> rfl

/-- A string constant is closed in front of the line break, or the line break is an error. -/
theorem stringConstant_lineBreak (afterQuote : List Char) :
    Token.stringConstant (afterQuote ++ '\n' :: more) =
      behind more (Token.stringConstant afterQuote) := by
  rw [Token.stringConstant, Token.stringConstant, stringEnd_lineBreak]
  cases Token.stringEnd 1 afterQuote with
  | closed size rest =>
      simp only [stringEndBehind]
      split <;> rfl
  | _ => rfl

/-- A word ends at the line break at the latest. -/
theorem word_lineBreak (first : Char) (following : List Char) :
    .ok (Token.word first (following ++ '\n' :: more)) =
      behind more (.ok (Token.word first following)) := by
  have ends : Token.continuesName '\n' = false := by decide
  obtain ⟨taken, left⟩ := takeWhile_lineBreak more Token.continuesName ends following
  simp only [Token.word, behind, taken, left]

/-- An integer constant ends at the line break at the latest. -/
theorem integerConstant_lineBreak (first : Char) (following : List Char) :
    Token.integerConstant first (following ++ '\n' :: more) =
      behind more (Token.integerConstant first following) := by
  have ends : Char.isDigit '\n' = false := by decide
  obtain ⟨taken, left⟩ := takeWhile_lineBreak more Char.isDigit ends following
  simp only [Token.integerConstant, taken, left]
  split <;> rfl

/-- A slash opens a comment exactly if it does so without the line break behind the text. -/
theorem slash_lineBreak (following : List Char)
    (closed : ∀ fault, lexeme '/' following = .error fault → fault.error ≠ .unclosedComment) :
    lexeme '/' (following ++ '\n' :: more) = behind more (lexeme '/' following) := by
  rcases following with _ | ⟨next, afterMark⟩
  · rfl
  · by_cases line : next = '/'
    · subst line
      exact lineComment_lineBreak more afterMark
    · by_cases block : next = '*'
      · subst block
        have opened (text : List Char) : lexeme '/' ('*' :: text) = Token.blockComment text := rfl
        rw [List.cons_append, opened, opened]
        rw [opened] at closed
        cases outcome : Token.blockComment afterMark with
        | ok read => exact blockComment_lineBreak more outcome
        | error fault =>
            have unclosed := outcome
            unfold Token.blockComment at unclosed
            split at unclosed <;> cases unclosed
            exact absurd rfl (closed _ outcome)
      · have alone (text : List Char) : lexeme '/' (next :: text) =
            .ok ⟨some (.punctuation .slash), 1, next :: text⟩ := by
          have ends : Ends (next :: text) (.punctuation .slash) := by
            rintro _ ⟨⟩
            exact ⟨line, block⟩
          exact lexeme_of_mark ends
        rw [List.cons_append, alone, alone]
        rfl

/-- One segment is read as it would be without the line break behind the text, unless it is a block
comment that is not closed. -/
theorem lexeme_lineBreak (first : Char) (following : List Char)
    (closed : ∀ fault, lexeme first following = .error fault → fault.error ≠ .unclosedComment) :
    lexeme first (following ++ '\n' :: more) = behind more (lexeme first following) := by
  by_cases isSlash : first = '/'
  · subst isSlash
    exact slash_lineBreak more following closed
  · unfold lexeme
    rw [if_neg isSlash, if_neg isSlash]
    split
    · rfl
    · split
      · rfl
      · split
        · exact stringConstant_lineBreak more following
        · split
          · exact word_lineBreak more first following
          · split
            · exact integerConstant_lineBreak more first following
            · rfl

/-- A token that is read alone is read in front of a line break. -/
theorem lexeme_of_success {first : Char} {following : List Char} {read : Token.Lexeme}
    (success : lexeme first following = .ok read) :
    lexeme first (following ++ '\n' :: more) =
      .ok { read with rest := read.rest ++ '\n' :: more } := by
  have closed : ∀ fault, lexeme first following = .error fault →
      fault.error ≠ .unclosedComment := by
    intro fault failure
    rw [success] at failure
    cases failure
  rw [lexeme_lineBreak more first following closed, success]
  rfl

end Segments

/-! ## Whole texts -/

/-- The reader goes on further on in a text as it would at its start. -/
theorem readAll_shift (distance offset : Nat) (tokens before : List Token)
    (characters : List Char) :
    readAll (offset + distance) (tokens.map (Token.shift distance) ++ before) characters =
      ((readAll offset tokens characters).map fun read =>
        before.reverse ++ read.map (Token.shift distance)).mapError (Located.shift distance) := by
  fun_induction readAll offset tokens characters with
  | case1 offset tokens => simp [readAll, Except.map, Except.mapError]
  | case2 offset tokens first following fault failure start =>
      have moved : offset + distance + fault.distance = start + distance :=
        Nat.add_right_comm offset distance fault.distance
      rw [readAll_of_fault failure]
      simp only [moved, Nat.add_right_comm start distance, ← Span.shift_ofBounds]
      rfl
  | case3 offset tokens first following read success _ stop extended inductionHypothesis =>
      have moved : offset + distance + read.size = stop + distance :=
        Nat.add_right_comm offset distance read.size
      rw [readAll_of_lexeme success, ← inductionHypothesis]
      simp only [moved, ← Span.shift_ofBounds]
      cases isKind : read.kind? with
      | none => simp only [extended, isKind]
      | some kind => simp only [extended, isKind, List.map_cons, List.cons_append, Token.shift]

section Readers

variable {offset : Nat} {tokens read : List Token} {characters : List Char}
  {failure : Located LexicalError}

/-- Behind a text that can be read and a line break the reader begins anew. -/
theorem readAll_of_success (success : readAll offset tokens characters = .ok read)
    (more : List Char) :
    readAll offset tokens (characters ++ '\n' :: more) =
      readAll (offset + Token.byteLength characters + 1) read.reverse more := by
  fun_induction readAll offset tokens characters with
  | case1 offset tokens =>
      cases success
      rw [List.nil_append, List.reverse_reverse]
      exact readAll_of_lexeme (lexeme_of_blank (by simp [Blank])) offset tokens
  | case2 => cases success
  | case3 offset tokens first following segment reading _ stop extended inductionHypothesis =>
      obtain ⟨piece, covers⟩ := Token.covers_of_lexeme reading
      have size : stop + Token.byteLength segment.rest =
          offset + Token.byteLength (first :: following) := by
        rw [covers.shape, Token.byteLength_append, ← covers.size, ← Nat.add_assoc]
      rw [List.cons_append, readAll_of_lexeme (lexeme_of_success more reading), ← size]
      exact inductionHypothesis success

/-- A text that cannot be read goes wrong at some segment. What stands behind the text and a line
break matters only as far as that segment is read differently. -/
theorem exists_fault_of_failure (failed : readAll offset tokens characters = .error failure) :
    ∃ (start : Nat) (first : Char) (following : List Char) (fault : Token.Fault),
      lexeme first following = .error fault ∧
      failure = (Span.ofBounds (start + fault.distance)
        (start + fault.distance + fault.size)).locate fault.error ∧
      ∀ (more : List Char) (other : Token.Fault),
        lexeme first (following ++ '\n' :: more) = .error other →
        readAll offset tokens (characters ++ '\n' :: more) =
          .error ((Span.ofBounds (start + other.distance)
            (start + other.distance + other.size)).locate other.error) := by
  fun_induction readAll offset tokens characters with
  | case1 => cases failed
  | case2 offset tokens first following fault reading =>
      cases failed
      exact ⟨offset, first, following, fault, reading, rfl,
        fun more other differs => readAll_of_fault differs offset tokens⟩
  | case3 offset tokens first following segment reading _ stop extended inductionHypothesis =>
      obtain ⟨start, latest, rest, fault, wrong, located, goesOn⟩ := inductionHypothesis failed
      refine ⟨start, latest, rest, fault, wrong, located, fun more other differs => ?_⟩
      rw [List.cons_append, readAll_of_lexeme (lexeme_of_success more reading)]
      exact goesOn more other differs

end Readers

/-! ## Sources -/

section Sources

variable {source : String} {failure : Located LexicalError}

/-- A source is lexed as it is read from its start. -/
theorem ofText_of_readAll {tokens : List Token}
    (reading : readAll 0 [] source.toList = .ok tokens) :
    TokenStream.ofText source = .ok (.ofTokens tokens source.utf8ByteSize) := by
  rw [TokenStream.ofText, reading]
  rfl

/-- A source is rejected by the reader exactly where reading it from its start is. -/
theorem ofText_eq_error_iff_readAll :
    TokenStream.ofText source = .error failure ↔ readAll 0 [] source.toList = .error failure := by
  unfold TokenStream.ofText
  cases readAll 0 [] source.toList with
  | ok tokens => exact iff_of_false nofun nofun
  | error found => exact Iff.of_eq (by simp [Except.map])

/-- The characters of two texts with a line break between them. -/
theorem toList_lineBreak (first second : String) :
    (first ++ "\n" ++ second).toList = first.toList ++ '\n' :: second.toList := by
  simp [String.toList_append]

/-- A text that can be read leaves what stands behind a line break to be read as if it stood
alone. -/
theorem ofText_of_success {first : String} {stream : TokenStream}
    (success : TokenStream.ofText first = .ok stream) (second : String) :
    TokenStream.ofText (first ++ "\n" ++ second) =
      ((TokenStream.ofText second).map fun other => .ofTokens
        (stream.tokens ++ other.tokens.map (Token.shift (first.utf8ByteSize + 1)))
        (first ++ "\n" ++ second).utf8ByteSize).mapError
          (Located.shift (first.utf8ByteSize + 1)) := by
  obtain ⟨tokens, reading, rfl⟩ := TokenStream.exists_readAll_of_ofText success
  have size : Token.byteLength first.toList = first.utf8ByteSize := (size_of_toList rfl).symm
  have behind : readAll 0 [] (first ++ "\n" ++ second).toList =
      ((readAll 0 [] second.toList).map fun read =>
        tokens ++ read.map (Token.shift (first.utf8ByteSize + 1))).mapError
          (Located.shift (first.utf8ByteSize + 1)) := by
    have shifted := readAll_shift (first.utf8ByteSize + 1) 0 [] tokens.reverse second.toList
    rw [List.reverse_reverse] at shifted
    rw [Nat.zero_add] at shifted
    rw [toList_lineBreak, readAll_of_success reading, size, ← shifted, Nat.zero_add]
    rfl
  unfold TokenStream.ofText
  rw [behind]
  cases readAll 0 [] second.toList <;> rfl

/-- A line break parts a text for the reader. If what stands in front of it can be read, its tokens
are followed by those of the text behind, further on by the bytes in between, or the error of that
text is found, as far on. If it cannot be read, the same error is found at the same place, unless a
comment or a string constant is not closed; the string constant then crosses the line break. -/
theorem ofText_lineBreak (first second : String) :
    (∀ stream other, TokenStream.ofText first = .ok stream → TokenStream.ofText second = .ok other →
      TokenStream.ofText (first ++ "\n" ++ second) = .ok (.ofTokens
        (stream.tokens ++ other.tokens.map (Token.shift (first.utf8ByteSize + 1)))
        (first ++ "\n" ++ second).utf8ByteSize)) ∧
    (∀ stream failure, TokenStream.ofText first = .ok stream →
      TokenStream.ofText second = .error failure →
      TokenStream.ofText (first ++ "\n" ++ second) =
        .error (failure.shift (first.utf8ByteSize + 1))) ∧
    (∀ failure, TokenStream.ofText first = .error failure → failure.value ≠ .unclosedString →
      failure.value ≠ .unclosedComment →
      TokenStream.ofText (first ++ "\n" ++ second) = .error failure) ∧
    ∀ failure, TokenStream.ofText first = .error failure → failure.value = .unclosedString →
      ∃ span, TokenStream.ofText (first ++ "\n" ++ second) = .error ⟨span, .multilineString⟩ ∧
        span.lo = failure.span.lo := by
  refine ⟨?_, ?_, ?_, ?_⟩
  · intro stream other success successBehind
    rw [ofText_of_success success, successBehind]
    rfl
  · intro stream failure success failed
    rw [ofText_of_success success, failed]
    rfl
  · intro failure failed notString notComment
    obtain ⟨start, latest, rest, fault, wrong, rfl, goesOn⟩ :=
      exists_fault_of_failure (ofText_eq_error_iff_readAll.1 failed)
    have notString : fault.error ≠ .unclosedString := notString
    -- The fault is the same in front of a break as at the end of the text.
    have same : lexeme latest (rest ++ '\n' :: second.toList) = .error fault := by
      rw [lexeme_lineBreak, wrong, behind, if_neg notString]
      intro other found
      rw [wrong] at found
      cases found
      exact notComment
    rw [TokenStream.ofText, toList_lineBreak, goesOn _ _ same]
    rfl
  · intro failure failed isString
    obtain ⟨start, latest, rest, fault, wrong, rfl, goesOn⟩ :=
      exists_fault_of_failure (ofText_eq_error_iff_readAll.1 failed)
    have isString : fault.error = .unclosedString := isString
    -- The string constant goes on to the break and is at fault there.
    have crossed : lexeme latest (rest ++ '\n' :: second.toList) =
        .error ⟨.multilineString, fault.distance, fault.size + 1⟩ := by
      rw [lexeme_lineBreak, wrong, behind, if_pos isString]
      intro other found
      rw [wrong] at found
      cases found
      rw [isString]
      rintro ⟨⟩
    rw [TokenStream.ofText, toList_lineBreak, goesOn _ _ crossed]
    exact ⟨_, rfl, rfl⟩

/-- A slash at the end of a line opens no comment, a line comment ends with its line, and a quote
behind it is at fault as far on as it stands there. -/
theorem ofText_lineBreak_of_slash :
    ∃ stream other failure unclosed, TokenStream.ofText "a/" = .ok stream ∧
      TokenStream.ofText "/ //é" = .ok other ∧ TokenStream.ofText "é" = .error failure ∧
      TokenStream.ofText "b \"c" = .error unclosed ∧
      failure.value ≠ .unclosedString ∧ failure.value ≠ .unclosedComment ∧
      unclosed.value = .unclosedString ∧
      TokenStream.ofText "a/\n/ //é" = .ok (.ofTokens
        (stream.tokens ++ other.tokens.map (Token.shift 3)) 9) ∧
      TokenStream.ofText "a/\né" = .error (failure.shift 3) ∧
      TokenStream.ofText "é\n\"" = .error failure ∧
      ∃ span, TokenStream.ofText "b \"c\n\"" = .error ⟨span, .multilineString⟩ ∧
        span.lo = unclosed.span.lo := by
  have slash : TokenStream.ofText "a/" = .ok (.ofTokens
      [⟨.identifier, ⟨0, 1⟩⟩, ⟨.punctuation .slash, ⟨1, 1⟩⟩] 2) :=
    ofText_of_readAll (by decide +kernel)
  have comment : TokenStream.ofText "/ //é" = .ok (.ofTokens [⟨.punctuation .slash, ⟨0, 1⟩⟩] 6) :=
    ofText_of_readAll (by decide +kernel)
  have foreign : TokenStream.ofText "é" = .error ⟨⟨0, 2⟩, .unexpectedCharacter 'é'⟩ :=
    ofText_eq_error_iff_readAll.2 (by decide +kernel)
  have unclosed : TokenStream.ofText "b \"c" = .error ⟨⟨2, 2⟩, .unclosedString⟩ :=
    ofText_eq_error_iff_readAll.2 (by decide +kernel)
  refine ⟨_, _, _, _, slash, comment, foreign, unclosed, nofun, nofun, rfl, ?_, ?_, ?_, ?_⟩
  · exact (ofText_lineBreak "a/" "/ //é").1 _ _ slash comment
  · exact (ofText_lineBreak "a/" "é").2.1 _ _ slash foreign
  · exact (ofText_lineBreak "é" "\"").2.2.1 _ foreign nofun nofun
  · exact (ofText_lineBreak "b \"c" "\"").2.2.2 _ unclosed rfl

end Sources

end Lexing

end JackCompiler
