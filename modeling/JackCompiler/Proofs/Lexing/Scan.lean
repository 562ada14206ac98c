import JackCompiler.Proofs.Lexing.Reading

/-!
# The reader splits off segments

Wherever the lexical grammar splits a segment off a text, the reader reads that segment, and where
the text is stuck, the reader finds its error. Since one of the two is the case for every text that
is not empty, this says all that the reader does. Integer constants need to be no longer than the
longest span, since the reader looks at no further digits.
-/

namespace JackCompiler

namespace Lexing

/-! ## Characters that are looked at -/

/-- The blanks of the reader are those of the grammar. -/
theorem isBlank_iff {character : Char} : Token.isBlank character ↔ Blank character := by
  simp only [Token.isBlank, Blank, Bool.or_eq_true, decide_eq_true_eq, List.mem_cons,
    List.not_mem_nil, or_false, or_assoc]

/-- The digits of the reader are those of the grammar. -/
theorem isDigit_iff {character : Char} : character.isDigit ↔ Digit character := by
  simp [Char.isDigit, Digit, Char.le_def]

/-- The reader begins names with the characters that the grammar does. -/
theorem startsName_iff {character : Char} : Token.startsName character ↔ NameStart character := by
  unfold Token.startsName Char.isAlpha Char.isUpper Char.isLower NameStart
  simp only [Char.le_def, Bool.or_eq_true, Bool.and_eq_true, decide_eq_true_eq, or_assoc,
    ge_iff_le]

/-- The reader goes on with names as long as the grammar does. -/
theorem continuesName_iff {character : Char} :
    Token.continuesName character ↔ NamePart character := by
  unfold NamePart
  rw [← startsName_iff, ← isDigit_iff]
  simp only [Token.startsName, Token.continuesName, Char.isAlphanum, Bool.or_eq_true]
  exact or_right_comm

/-! ## The first character decides -/

section First

variable {character : Char} {following : List Char}

/-- A character that no sign has is no mark. -/
theorem ofCharacter?_eq_none (notMark : ∀ sign : Punctuation, character ≠ sign.character) :
    Punctuation.ofCharacter? character = none := by
  cases found : Punctuation.ofCharacter? character with
  | none => rfl
  | some sign => exact absurd (Punctuation.ofCharacter?_eq_some_iff.1 found) (notMark sign)

/-- Characters of names and numbers are nothing else. -/
theorem ordinary_of_namePart (part : NamePart character) :
    ¬Blank character ∧ (∀ sign : Punctuation, character ≠ sign.character) ∧ character ≠ '"' := by
  rw [← continuesName_iff] at part
  refine ⟨?_, ?_, ?_⟩
  · intro blank
    simp only [Blank, List.mem_cons, List.not_mem_nil, or_false] at blank
    rcases blank with rfl | rfl | rfl | rfl | rfl <;> exact absurd part (by decide)
  · rintro sign rfl
    cases sign <;> exact absurd part (by decide)
  · rintro rfl
    exact absurd part (by decide)

/-- No digit begins a name. -/
theorem not_digit_of_nameStart (start : NameStart character) : ¬Digit character := by
  rintro ⟨low, high⟩
  simp only [NameStart, Char.le_def, UInt32.le_iff_toNat_le] at *
  rcases start with bounds | bounds | rfl
  · exact absurd (Nat.le_trans bounds.1 high) (by decide)
  · exact absurd (Nat.le_trans bounds.1 high) (by decide)
  · exact absurd high (by decide)

/-- A blank is skipped. -/
theorem lexeme_of_blank (blank : Blank character) :
    Token.lexeme character following = .ok ⟨none, 1, following⟩ := by
  have notSlash : character ≠ '/' := by
    rintro rfl
    exact absurd (isBlank_iff.2 blank) (by decide)
  unfold Token.lexeme
  rw [if_neg notSlash, if_pos (isBlank_iff.2 blank)]

/-- A mark is read as such, unless a comment begins with it. -/
theorem lexeme_of_mark {sign : Punctuation} (ends : Ends following (.punctuation sign)) :
    Token.lexeme sign.character following = .ok ⟨some (.punctuation sign), 1, following⟩ := by
  cases sign with
  | slash =>
      cases following with
      | nil => rfl
      | cons next others =>
          obtain ⟨notSlash, notStar⟩ := ends next rfl
          unfold Token.lexeme
          rw [if_pos (by rfl)]
          split
          · next same =>
              cases same
              exact absurd rfl notSlash
          · next same =>
              cases same
              exact absurd rfl notStar
          · rfl
  | _ => rfl

/-- Characters that are neither white space nor marks open string constants, names and numbers. -/
theorem lexeme_of_ordinary (notBlank : ¬Blank character)
    (notMark : ∀ sign : Punctuation, character ≠ sign.character) :
    Token.lexeme character following =
      if character = '"' then Token.stringConstant following
      else if Token.startsName character then .ok (Token.word character following)
      else if character.isDigit then Token.integerConstant character following
      else .error ⟨.unexpectedCharacter character, 0, character.utf8Size⟩ := by
  have notSlash : character ≠ '/' := notMark .slash
  unfold Token.lexeme
  rw [if_neg notSlash, if_neg (mt isBlank_iff.1 notBlank), ofCharacter?_eq_none notMark]

/-- A character that begins a name begins a word. -/
theorem lexeme_of_nameStart (start : NameStart character) :
    Token.lexeme character following = .ok (Token.word character following) := by
  obtain ⟨notBlank, notMark, notQuote⟩ := ordinary_of_namePart (.inl start)
  rw [lexeme_of_ordinary notBlank notMark, if_neg notQuote, if_pos (startsName_iff.2 start)]

/-- A digit begins an integer constant. -/
theorem lexeme_of_digit (digit : Digit character) :
    Token.lexeme character following = Token.integerConstant character following := by
  obtain ⟨notBlank, notMark, notQuote⟩ := ordinary_of_namePart (.inr digit)
  have notName := fun start => not_digit_of_nameStart (startsName_iff.1 start) digit
  rw [lexeme_of_ordinary notBlank notMark, if_neg notQuote, if_neg notName,
    if_pos (isDigit_iff.2 digit)]

end First

/-! ## Runs of characters -/

section Runs

variable {keep : Char → Bool} {inside rest : List Char}

/-- A run of characters is taken up to the first one that does not belong to it. -/
theorem takeWhile_run (all : ∀ character ∈ inside, keep character)
    (ends : ∀ next ∈ rest.head?, ¬keep next) : (inside ++ rest).takeWhile keep = inside := by
  rw [List.takeWhile_append_of_pos all]
  cases rest with
  | nil => simp
  | cons next others => simp [List.takeWhile_cons_of_neg (ends next rfl)]

/-- What is behind a run of characters is left when they are dropped. -/
theorem dropWhile_run (all : ∀ character ∈ inside, keep character)
    (ends : ∀ next ∈ rest.head?, ¬keep next) : (inside ++ rest).dropWhile keep = rest := by
  rw [List.dropWhile_append_of_pos all]
  cases rest with
  | nil => rfl
  | cons next others => exact List.dropWhile_cons_of_neg (ends next rfl)

/-- Every text starts with such a run, which may be empty. -/
theorem exists_run (keep : Char → Bool) (text : List Char) :
    ∃ inside rest, text = inside ++ rest ∧ (∀ character ∈ inside, keep character) ∧
      ∀ next ∈ rest.head?, ¬keep next := by
  refine ⟨text.takeWhile keep, text.dropWhile keep, List.takeWhile_append_dropWhile.symm,
    fun character member => List.all_eq_true.1 List.all_takeWhile character member, ?_⟩
  intro next isNext
  have fails := List.head?_dropWhile_not keep text
  rw [Option.mem_def.1 isNext] at fails
  simpa using fails

end Runs

/-! ## Comments -/

section Comments

variable {body rest : List Char}

/-- The end of a comment is found at the first character, or it is found further on. -/
theorem closing_infix_cons {first : Char} {others : List Char} :
    ['*', '/'] <:+: first :: others ↔
      (first = '*' ∧ others.head? = some '/') ∨ ['*', '/'] <:+: others := by
  rw [List.infix_cons_iff, List.cons_prefix_cons]
  cases others with
  | nil => simp
  | cons second others => simp [List.cons_prefix_cons, eq_comm]

/-- The first closing mark closes a comment. -/
theorem closeComment?_append (inside : ¬['*', '/'] <:+: body) (size : Nat) :
    Token.closeComment? size (body ++ '*' :: '/' :: rest) =
      some (size + Token.byteLength body + 2, rest) := by
  induction body generalizing size with
  | nil => rfl
  | cons first body inductionHypothesis =>
      rw [closing_infix_cons, not_or] at inside
      rw [List.cons_append, Token.closeComment?.eq_3, inductionHypothesis inside.2,
        Token.byteLength_cons, Nat.add_assoc size]
      intro others isStar shape
      cases body with
      | nil => cases shape
      | cons second body =>
          cases shape
          exact inside.1 ⟨isStar, rfl⟩

/-- A comment that is not closed has no end. -/
theorem closeComment?_eq_none (inside : ¬['*', '/'] <:+: body) (size : Nat) :
    Token.closeComment? size body = none := by
  induction body generalizing size with
  | nil => rfl
  | cons first body inductionHypothesis =>
      rw [closing_infix_cons, not_or] at inside
      rw [Token.closeComment?.eq_3, inductionHypothesis inside.2]
      rintro others isStar rfl
      exact inside.1 ⟨isStar, rfl⟩

/-- A text holds no closing mark, or there is a first one. -/
theorem exists_closing (text : List Char) :
    ¬['*', '/'] <:+: text ∨
      ∃ body rest, text = body ++ '*' :: '/' :: rest ∧ ¬['*', '/'] <:+: body := by
  induction text with
  | nil => exact .inl (by decide)
  | cons first text inductionHypothesis =>
      by_cases closes : first = '*' ∧ text.head? = some '/'
      · obtain ⟨rfl, isSlash⟩ := closes
        obtain ⟨rest, rfl⟩ := List.head?_eq_some_iff.1 isSlash
        exact .inr ⟨[], rest, rfl, by decide⟩
      · rcases inductionHypothesis with none | ⟨body, rest, rfl, inside⟩
        · exact .inl fun found => (closing_infix_cons.1 found).elim closes none
        · refine .inr ⟨first :: body, rest, rfl, fun found => ?_⟩
          rcases closing_infix_cons.1 found with ⟨isStar, isSlash⟩ | found
          · refine closes ⟨isStar, ?_⟩
            rw [List.head?_append, isSlash]
            rfl
          · exact inside found

end Comments

/-! ## String constants -/

section Strings

variable {contents rest : List Char} {character : Char}

/-- Characters of a string constant are passed one by one. -/
theorem stringEnd_append (inside : ∀ character ∈ contents, Token.isStringCharacter character)
    (size : Nat) (rest : List Char) :
    Token.stringEnd size (contents ++ rest) = Token.stringEnd (size + contents.length) rest := by
  induction contents generalizing size with
  | nil => rfl
  | cons first contents inductionHypothesis =>
      rw [List.forall_mem_cons] at inside
      obtain ⟨⟨notQuote, notFeed, notReturn, notNul, ascii⟩, inside⟩ := inside
      rw [List.cons_append, Token.stringEnd, if_neg notQuote, if_neg (by simp [notFeed, notReturn]),
        if_neg (by simp [notNul, ascii]), inductionHypothesis inside, List.length_cons,
        Nat.add_assoc, Nat.add_comm 1]

/-- A text goes on with characters of a string constant up to its end or another character. -/
theorem exists_contents (text : List Char) :
    ∃ contents rest, text = contents ++ rest ∧
      (∀ character ∈ contents, Token.isStringCharacter character) ∧
      ∀ next ∈ rest.head?, ¬Token.isStringCharacter next := by
  classical
  obtain ⟨contents, rest, shape, inside, ends⟩ :=
    exists_run (fun character => decide (Token.isStringCharacter character)) text
  exact ⟨contents, rest, shape, fun character member => of_decide_eq_true (inside character member),
    fun next isNext is => ends next isNext (decide_eq_true is)⟩

/-- A quote begins a string constant. -/
theorem lexeme_of_quote (following : List Char) :
    Token.lexeme '"' following = Token.stringConstant following := rfl

/-- A string constant is read up to its closing quote, if it is not too long. -/
theorem lexeme_of_string (inside : ∀ character ∈ contents, Token.isStringCharacter character) :
    Token.lexeme '"' (contents ++ '"' :: rest) =
      if Token.maxStringLength < contents.length then
        .error ⟨.stringTooLong, 0, contents.length + 2⟩
      else .ok ⟨some .string, contents.length + 2, rest⟩ := by
  have found : Token.stringEnd 1 (contents ++ '"' :: rest) =
      .closed (contents.length + 2) rest := by
    rw [stringEnd_append inside, Token.stringEnd, if_pos rfl, Nat.add_comm 1]
  rw [lexeme_of_quote, Token.stringConstant, found]
  rfl

/-- A line break in a string constant is an error that reaches up to it. -/
theorem lexeme_of_lineBreak
    (inside : ∀ character ∈ contents, Token.isStringCharacter character)
    (isBreak : character = '\n' ∨ character = '\r') :
    Token.lexeme '"' (contents ++ character :: rest) =
      .error ⟨.multilineString, 0, contents.length + 2⟩ := by
  have notQuote : character ≠ '"' := by rcases isBreak with rfl | rfl <;> decide
  have found : Token.stringEnd 1 (contents ++ character :: rest) =
      .lineBreak (contents.length + 2) := by
    rw [stringEnd_append inside, Token.stringEnd, if_neg notQuote, if_pos (by simpa using isBreak),
      Nat.add_comm 1]
  rw [lexeme_of_quote, Token.stringConstant, found]

/-- A string constant that is not closed is an error up to the end. -/
theorem lexeme_of_unclosed
    (inside : ∀ character ∈ contents, Token.isStringCharacter character) :
    Token.lexeme '"' contents = .error ⟨.unclosedString, 0, contents.length + 1⟩ := by
  have found : Token.stringEnd 1 contents = .unclosed (contents.length + 1) := by
    have passed := stringEnd_append inside 1 []
    rw [List.append_nil] at passed
    rw [passed, Token.stringEnd, Nat.add_comm]
  rw [lexeme_of_quote, Token.stringConstant, found]

/-- A character that may not stand in a string constant is an error at its place. -/
theorem lexeme_of_foreign
    (inside : ∀ character ∈ contents, Token.isStringCharacter character)
    (isForeign : character = '\x00' ∨ 128 ≤ character.toNat) :
    Token.lexeme '"' (contents ++ character :: rest) =
      .error ⟨.unexpectedCharacter character, contents.length + 1, character.utf8Size⟩ := by
  have other (sign : Char) (notNul : sign ≠ '\x00') (ascii : sign.toNat < 128) :
      character ≠ sign := by
    rintro rfl
    exact isForeign.elim notNul (Nat.not_le_of_lt ascii)
  have found : Token.stringEnd 1 (contents ++ character :: rest) =
      .foreign character (contents.length + 1) := by
    rw [stringEnd_append inside, Token.stringEnd, if_neg (other '"' (by decide) (by decide)),
      if_neg (by simp [other '\n' (by decide) (by decide), other '\r' (by decide) (by decide)]),
      if_pos (by simpa using isForeign), Nat.add_comm]
  rw [lexeme_of_quote, Token.stringConstant, found]

end Strings

/-! ## Names and numbers -/

section Runs

variable {first : Char} {others rest : List Char}

/-- A run that a name can be is a reserved word or a name. -/
theorem lexeme_of_run (start : NameStart first) (inside : ∀ character ∈ others, NamePart character)
    (ends : ∀ next ∈ rest.head?, ¬NamePart next) :
    Token.lexeme first (others ++ rest) =
      .ok ⟨some (match Keyword.ofText? (String.ofList (first :: others)) with
        | some keyword => .keyword keyword
        | none => .identifier), (first :: others).length, rest⟩ := by
  have all : ∀ character ∈ others, Token.continuesName character :=
    fun character member => continuesName_iff.2 (inside character member)
  have stop : ∀ next ∈ rest.head?, ¬Token.continuesName next :=
    fun next isNext continues => ends next isNext (continuesName_iff.1 continues)
  have run := takeWhile_run all stop
  have left := dropWhile_run all stop
  rw [lexeme_of_nameStart start, Token.word]
  generalize (others ++ rest).takeWhile Token.continuesName = taken at run
  generalize (others ++ rest).dropWhile Token.continuesName = dropped at left
  subst run left
  rfl

/-- An integer constant is read as far as there are digits, if its value fits. -/
theorem lexeme_of_digits (short : (first :: others).length ≤ Span.maxLength)
    (inside : ∀ character ∈ first :: others, Digit character)
    (ends : ∀ next ∈ rest.head?, ¬Digit next) :
    Token.lexeme first (others ++ rest) =
      if Text.decimalValue (first :: others) ≤ Token.maxInteger then
        .ok ⟨some (.integer (UInt16.ofNat (Text.decimalValue (first :: others)))),
          (first :: others).length, rest⟩
      else .error ⟨.integerOutOfRange, 0, (first :: others).length⟩ := by
  rw [List.forall_mem_cons] at inside
  have all : ∀ character ∈ others, character.isDigit :=
    fun character member => isDigit_iff.2 (inside.2 character member)
  have stop : ∀ next ∈ rest.head?, ¬next.isDigit :=
    fun next isNext digit => ends next isNext (isDigit_iff.1 digit)
  rw [lexeme_of_digit inside.1, Token.integerConstant, takeWhile_run all stop,
    dropWhile_run all stop, List.take_of_length_le short]

end Runs

/-! ## Segments -/

/-- Digits have a byte each. -/
theorem byteLength_digits {digits : List Char} (inside : ∀ character ∈ digits, Digit character) :
    Token.byteLength digits = digits.length :=
  Token.byteLength_eq_length fun character member =>
    Token.toNat_of_isDigit (isDigit_iff.2 (inside character member))

/-- The characters of a name have a byte each. -/
theorem byteLength_name {first : Char} {others : List Char} (start : NameStart first)
    (inside : ∀ character ∈ others, NamePart character) :
    Token.byteLength (first :: others) = (first :: others).length := by
  refine Token.byteLength_eq_length fun character member => ?_
  refine Token.toNat_of_continuesName (continuesName_iff.2 ?_)
  rcases List.mem_cons.1 member with rfl | member
  · exact .inl start
  · exact inside character member

/-- The characters of a string constant have a byte each. -/
theorem byteLength_contents {contents : List Char}
    (inside : ∀ character ∈ contents, Token.isStringCharacter character) :
    Token.byteLength contents = contents.length :=
  Token.byteLength_eq_length fun character member =>
    Token.toNat_of_isStringCharacter (inside character member)

/-- A reserved word is a run that a name could be. -/
theorem exists_run_of_keyword (word : Keyword) :
    ∃ first others, word.text.toList = first :: others ∧ NameStart first ∧
      ∀ character ∈ others, NamePart character := by
  have decided : ∃ first others, word.text.toList = first :: others ∧ Token.startsName first ∧
      others.all Token.continuesName := by
    cases word <;> exact ⟨_, _, rfl, by decide, by decide⟩
  obtain ⟨first, others, shape, start, inside⟩ := decided
  refine ⟨first, others, shape, startsName_iff.1 start, fun character member => ?_⟩
  exact continuesName_iff.1 (List.all_eq_true.1 inside character member)

/-- What the reader makes of the token of a kind. -/
theorem lexeme_of_written {kind : Token.Kind} {first : Char} {others rest : List Char}
    (written : Written (first :: others) kind) (ends : Ends rest kind)
    (short : (first :: others).length ≤ Span.maxLength) :
    Token.lexeme first (others ++ rest) =
      .ok ⟨some kind, Token.byteLength (first :: others), rest⟩ := by
  cases kind with
  | punctuation sign =>
      obtain ⟨rfl, rfl⟩ := List.cons.inj written
      rw [List.nil_append, lexeme_of_mark ends]
      cases sign <;> rfl
  | keyword word =>
      obtain ⟨first', others', shape, start, inside⟩ := exists_run_of_keyword word
      obtain ⟨rfl, rfl⟩ := List.cons.inj (Eq.trans (Eq.symm shape) (Eq.symm written))
      have found : Keyword.ofText? (String.ofList (first' :: others')) = some word := by
        rw [Keyword.ofText?_eq_some_iff, written, String.ofList_toList]
      rw [lexeme_of_run start inside ends, found, byteLength_name start inside]
  | identifier =>
      obtain ⟨_, _, same, start, inside, notWord⟩ := written
      obtain ⟨rfl, rfl⟩ := List.cons.inj same
      have found : Keyword.ofText? (String.ofList (first :: others)) = none := by
        cases found : Keyword.ofText? (String.ofList (first :: others)) with
        | none => rfl
        | some word =>
            refine absurd ?_ (notWord word)
            rw [← Keyword.ofText?_eq_some_iff.1 found, String.toList_ofList]
      rw [lexeme_of_run start inside ends, found, byteLength_name start inside]
  | string =>
      obtain ⟨contents, same, inside, notLong⟩ := written
      obtain ⟨rfl, rfl⟩ := List.cons.inj same
      rw [List.append_assoc, List.singleton_append, lexeme_of_string inside,
        if_neg (Nat.not_lt_of_le notLong), Token.byteLength_cons, Token.byteLength_append,
        byteLength_contents inside]
      show _ = Except.ok (Token.Lexeme.mk _ (1 + (contents.length + 1)) _)
      rw [Nat.add_comm 1]
  | integer value =>
      obtain ⟨_, inside, isValue, small⟩ := written
      rw [lexeme_of_digits short inside ends, isValue, if_pos small, byteLength_digits inside,
        UInt16.ofNat_toNat]

/-- What the reader makes of white space and comments. -/
theorem lexeme_of_trivia {first : Char} {others rest : List Char}
    (trivia : Trivia (first :: others) rest) :
    Token.lexeme first (others ++ rest) =
      .ok ⟨none, Token.byteLength (first :: others), rest⟩ := by
  have slash : '/'.utf8Size = 1 := by decide
  have star : '*'.utf8Size = 1 := by decide
  cases trivia with
  | blank isBlank =>
      rw [List.nil_append, lexeme_of_blank isBlank, Token.byteLength_cons, Token.byteLength_nil,
        Token.utf8Size_of_toNat (Token.toNat_of_isBlank (isBlank_iff.2 isBlank))]
  | lineComment inside ends =>
      rename_i body
      have all : ∀ character ∈ body, decide (character ≠ '\n') := by
        intro character member
        refine decide_eq_true ?_
        rintro rfl
        exact inside member
      have stop : ∀ next ∈ rest.head?, ¬decide (next ≠ '\n') := by
        intro next isNext
        simpa using ends next isNext
      show Except.ok (Token.lineComment (body ++ rest)) = _
      unfold Token.lineComment
      simp only [takeWhile_run all stop, dropWhile_run all stop]
      rw [Token.byteLength_cons, Token.byteLength_cons, slash, ← Nat.add_assoc]
  | blockComment inside =>
      rename_i body
      have closed : Token.closeComment? 2 (body ++ ['*', '/'] ++ rest) =
          some (2 + Token.byteLength body + 2, rest) := by
        rw [List.append_assoc]
        exact closeComment?_append inside 2
      show Token.blockComment (body ++ ['*', '/'] ++ rest) = _
      unfold Token.blockComment
      rw [closed]
      simp only [Token.byteLength_cons, Token.byteLength_append, Token.byteLength_nil, slash, star,
        Except.ok.injEq, Token.Lexeme.mk.injEq, true_and, and_true]
      omega

/-- No token is empty. -/
theorem Written.ne_nil {piece : List Char} {kind : Token.Kind} (written : Written piece kind) :
    piece ≠ [] := by
  rintro rfl
  cases kind with
  | keyword word =>
      obtain ⟨first, others, shape, _⟩ := exists_run_of_keyword word
      cases Eq.trans written shape
  | punctuation sign => cases written
  | identifier =>
      obtain ⟨_, _, same, _⟩ := written
      cases same
  | string =>
      obtain ⟨_, same, _⟩ := written
      cases same
  | integer value => exact written.1 rfl

/-- A segment is not empty. -/
theorem Segment.Fits.ne_nil {segment : Segment} {rest : List Char} (fits : segment.Fits rest) :
    segment.piece ≠ [] := by
  obtain ⟨kind?, piece⟩ := segment
  cases kind? with
  | none =>
      rintro rfl
      cases fits
  | some kind => exact fits.1.ne_nil

/-- The reader splits off a segment wherever one fits. Only integer constants have to be short. -/
theorem lexeme_of_fits {segment : Segment} {first : Char} {following rest : List Char}
    (fits : segment.Fits rest)
    (short : segment.kind?.isSome → segment.piece.length ≤ Span.maxLength)
    (shape : first :: following = segment.piece ++ rest) :
    Token.lexeme first following =
      .ok ⟨segment.kind?, Token.byteLength segment.piece, rest⟩ := by
  have some := fits.ne_nil
  obtain ⟨kind?, piece⟩ := segment
  obtain ⟨head, others, rfl⟩ := List.exists_cons_of_ne_nil some
  obtain ⟨rfl, rfl⟩ := List.cons.inj shape
  cases kind? with
  | none => exact lexeme_of_trivia fits
  | some kind => exact lexeme_of_written fits.1 fits.2 (short rfl)

/-- Only text that is not empty can be stuck. -/
theorem Stuck.ne_nil {skipped covered rest : List Char} {error : LexicalError}
    (stuck : Stuck skipped covered rest error) : skipped ++ covered ++ rest ≠ [] := by
  cases stuck with
  | integerOutOfRange some => simpa using fun isNil => absurd isNil some
  | _ => simp

/-- Where a text is stuck the reader finds the error. -/
theorem lexeme_of_stuck {skipped covered rest following : List Char} {first : Char}
    {error : LexicalError} (stuck : Stuck skipped covered rest error)
    (short : covered.length ≤ Span.maxLength)
    (shape : first :: following = skipped ++ covered ++ rest) :
    Token.lexeme first following =
      .error ⟨error, Token.byteLength skipped, Token.byteLength covered⟩ := by
  have quote : '"'.utf8Size = 1 := by decide
  -- One case for each error, whose size is that of the piece up to the character at fault.
  cases stuck with
  | unclosedComment inside =>
      rename_i body
      have slash : '/'.utf8Size = 1 := by decide
      have star : '*'.utf8Size = 1 := by decide
      rw [List.nil_append, List.append_nil] at shape
      obtain ⟨rfl, rfl⟩ := List.cons.inj shape
      show Token.blockComment body = _
      unfold Token.blockComment
      rw [closeComment?_eq_none inside, Token.byteLength_cons, Token.byteLength_cons, slash, star,
        ← Nat.add_assoc]
      rfl
  | integerOutOfRange some inside ends large =>
      obtain ⟨head, others, rfl⟩ := List.exists_cons_of_ne_nil some
      rw [List.nil_append, List.cons_append] at shape
      obtain ⟨rfl, rfl⟩ := List.cons.inj shape
      rw [lexeme_of_digits short inside ends, if_neg (Nat.not_le_of_lt large),
        byteLength_digits inside]
      rfl
  | stringTooLong inside long =>
      rw [List.nil_append, List.cons_append, List.append_assoc] at shape
      obtain ⟨rfl, rfl⟩ := List.cons.inj shape
      rw [List.singleton_append, lexeme_of_string inside, if_pos long, Token.byteLength_cons,
        Token.byteLength_append, byteLength_contents inside, Nat.add_comm '"'.utf8Size]
      rfl
  | multilineString inside isBreak =>
      rename_i contents character
      have ascii : character.toNat < 128 := by rcases isBreak with rfl | rfl <;> decide
      have size := Token.utf8Size_of_toNat ascii
      rw [List.nil_append, List.cons_append, List.append_assoc] at shape
      obtain ⟨rfl, rfl⟩ := List.cons.inj shape
      rw [List.singleton_append, lexeme_of_lineBreak inside isBreak, Token.byteLength_cons,
        Token.byteLength_append, byteLength_contents inside, Token.byteLength_cons, size,
        Nat.add_comm '"'.utf8Size]
      rfl
  | unclosedString inside =>
      rw [List.nil_append, List.append_nil] at shape
      obtain ⟨rfl, rfl⟩ := List.cons.inj shape
      rw [lexeme_of_unclosed inside, Token.byteLength_cons, byteLength_contents inside,
        Nat.add_comm '"'.utf8Size]
      rfl
  | foreign inside isForeign =>
      rw [List.cons_append, List.cons_append, List.append_assoc] at shape
      obtain ⟨rfl, rfl⟩ := List.cons.inj shape
      rw [List.singleton_append, lexeme_of_foreign inside isForeign, Token.byteLength_cons,
        byteLength_contents inside, Token.byteLength_cons, Nat.add_comm '"'.utf8Size]
      rfl
  | unexpected notBlank notMark notQuote notName notDigit =>
      obtain ⟨rfl, rfl⟩ := List.cons.inj shape
      rw [lexeme_of_ordinary notBlank notMark, if_neg notQuote, if_neg (mt startsName_iff.1 notName),
        if_neg (mt isDigit_iff.1 notDigit), Token.byteLength_cons]
      rfl

end Lexing

end JackCompiler
