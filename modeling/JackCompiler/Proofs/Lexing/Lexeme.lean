import JackCompiler.Token.Lexer

/-!
# What a token was read from

A token, blank or comment is read from a piece at the start of a text. `Token.Spells` says which
pieces spell which kinds, and `Lexeme.Covers` that what was read stands for such a piece. Sizes are
those of the pieces, so offsets that add them up never leave the boundaries of characters.
-/

namespace JackCompiler

namespace Token

/-- The characters that a string constant can hold. -/
def isStringCharacter (character : Char) : Prop :=
  character ≠ '"' ∧ character ≠ '\n' ∧ character ≠ '\r' ∧ character ≠ '\x00' ∧
    character.toNat < 128

/-- Whether a piece of text spells a token of a kind. -/
def Spells (piece : List Char) : Kind → Prop
  | .keyword word => piece = word.text.toList
  | .punctuation sign => piece = [sign.character]
  | .identifier =>
      (∀ character ∈ piece, continuesName character) ∧
        Keyword.ofText? (String.ofList piece) = none
  | .string => ∃ contents, piece = '"' :: (contents ++ ['"']) ∧
      contents.length ≤ maxStringLength ∧ ∀ character ∈ contents, isStringCharacter character
  | .integer value => (∀ character ∈ piece, character.isDigit) ∧
      value.toNat = Text.decimalValue (piece.take Span.maxLength)

/-! ## Sizes -/

@[simp] theorem byteLength_nil : byteLength [] = 0 := rfl

/-- Two parts have the bytes of both. -/
theorem byteLength_append (left right : List Char) :
    byteLength (left ++ right) = byteLength left + byteLength right := by
  rw [byteLength_eq, byteLength_eq, byteLength_eq, String.ofList_append]
  exact String.utf8ByteSize_append

/-- The first character has its bytes, and the others have theirs. -/
theorem byteLength_cons (character : Char) (characters : List Char) :
    byteLength (character :: characters) = character.utf8Size + byteLength characters := by
  rw [byteLength_eq, byteLength_eq, String.ofList_cons]
  simp

/-- ASCII characters take one byte. -/
theorem utf8Size_of_toNat {character : Char} (ascii : character.toNat < 128) :
    character.utf8Size = 1 := by
  rw [Char.utf8Size_eq_one_iff, UInt32.le_iff_toNat_le]
  exact Nat.le_of_lt_succ ascii

/-- ASCII characters are as many as their bytes. -/
theorem byteLength_eq_length {characters : List Char}
    (ascii : ∀ character ∈ characters, character.toNat < 128) :
    byteLength characters = characters.length := by
  induction characters with
  | nil => rfl
  | cons character characters inductionHypothesis =>
      rw [List.forall_mem_cons] at ascii
      rw [byteLength_cons, inductionHypothesis ascii.2, utf8Size_of_toNat ascii.1,
        List.length_cons, Nat.add_comm]

/-- Blanks are ASCII. -/
theorem toNat_of_isBlank {character : Char} (blank : isBlank character) :
    character.toNat < 128 := by
  simp only [isBlank, Bool.or_eq_true, decide_eq_true_eq] at blank
  rcases blank with (((rfl | rfl) | rfl) | rfl) | rfl <;> decide

/-- Digits are ASCII. -/
theorem toNat_of_isDigit {character : Char} (digit : character.isDigit) :
    character.toNat < 128 := by
  simp only [Char.isDigit, Bool.and_eq_true, decide_eq_true_eq, UInt32.le_iff_toNat_le] at digit
  exact Nat.lt_of_le_of_lt digit.2 (by decide)

/-- Letters are ASCII. -/
theorem toNat_of_isAlpha {character : Char} (letter : character.isAlpha) :
    character.toNat < 128 := by
  rcases Bool.or_eq_true_iff.1 letter with upper | lower
  · have bounds := of_decide_eq_true upper
    exact Nat.lt_of_le_of_lt (UInt32.le_iff_toNat_le.1 bounds.2) (by decide)
  · have bounds := Bool.and_eq_true_iff.1 lower
    exact Nat.lt_of_le_of_lt (UInt32.le_iff_toNat_le.1 (of_decide_eq_true bounds.2)) (by decide)

/-- The characters of names are ASCII. -/
theorem toNat_of_continuesName {character : Char} (continues : continuesName character) :
    character.toNat < 128 := by
  simp only [continuesName, Char.isAlphanum, Bool.or_eq_true, decide_eq_true_eq] at continues
  rcases continues with (letter | digit) | underscore
  · exact toNat_of_isAlpha letter
  · exact toNat_of_isDigit digit
  · rw [underscore]
    decide

/-- The characters of string constants are ASCII. -/
theorem toNat_of_isStringCharacter {character : Char} (inside : isStringCharacter character) :
    character.toNat < 128 :=
  inside.2.2.2.2

/-- A string constant is ASCII, its quotes included. -/
theorem toNat_of_quoted {contents : List Char}
    (inside : ∀ character ∈ contents, isStringCharacter character) :
    ∀ character ∈ '"' :: (contents ++ ['"']), character.toNat < 128 := by
  rw [List.forall_mem_cons, List.forall_mem_append, List.forall_mem_singleton]
  have quote : '"'.toNat < 128 := by decide
  exact ⟨quote, fun character member => toNat_of_isStringCharacter (inside character member), quote⟩

/-! ## Pieces -/

/-- What was read stands for a piece at the start of the characters, and leaves the rest. -/
structure Lexeme.Covers (read : Lexeme) (characters piece : List Char) : Prop where
  shape : characters = piece ++ read.rest
  size : read.size = byteLength piece
  spells : ∀ kind, read.kind? = some kind → Spells piece kind

/-- Blanks and comments spell nothing. -/
theorem covers_trivia {characters piece rest : List Char} {size : Nat}
    (shape : characters = piece ++ rest) (sized : size = byteLength piece) :
    Lexeme.Covers ⟨none, size, rest⟩ characters piece :=
  ⟨shape, sized, fun _ impossible => by cases impossible⟩

/-- A mark is read from its own character. -/
theorem covers_mark (sign : Punctuation) (rest : List Char) :
    Lexeme.Covers ⟨some (.punctuation sign), 1, rest⟩ (sign.character :: rest)
      [sign.character] := by
  refine ⟨rfl, ?_, ?_⟩
  · cases sign <;> rfl
  · intro kind isKind
    cases isKind
    rfl

/-- A comment is closed by the two characters at the end of its piece. -/
theorem shape_of_closeComment? {size total : Nat} {characters rest : List Char}
    (closed : closeComment? size characters = some (total, rest)) :
    ∃ body, characters = body ++ rest ∧ total = size + byteLength body := by
  fun_induction closeComment? size characters with
  | case1 => cases closed
  | case2 size after =>
      cases closed
      exact ⟨['*', '/'], rfl, rfl⟩
  | case3 size character after _ inductionHypothesis =>
      obtain ⟨body, shape, sized⟩ := inductionHypothesis closed
      refine ⟨character :: body, by rw [shape, List.cons_append], ?_⟩
      rw [sized, byteLength_cons]
      omega

/-- A string constant goes on with characters that it can hold and a quote. -/
theorem shape_of_stringEnd {size total : Nat} {characters rest : List Char}
    (closed : stringEnd size characters = .closed total rest) :
    ∃ contents, characters = contents ++ '"' :: rest ∧ total = size + contents.length + 1 ∧
      ∀ character ∈ contents, isStringCharacter character := by
  induction characters generalizing size with
  | nil => cases closed
  | cons character characters inductionHypothesis =>
      unfold stringEnd at closed
      split at closed
      · next quote =>
          cases closed
          exact ⟨[], by rw [quote]; rfl, rfl, by simp⟩
      · next notQuote =>
          split at closed
          · cases closed
          · next notBreak =>
              split at closed
              · cases closed
              · next known =>
                  obtain ⟨contents, shape, sized, all⟩ := inductionHypothesis closed
                  refine ⟨character :: contents, by rw [shape, List.cons_append], ?_, ?_⟩
                  · rw [sized, List.length_cons]
                    omega
                  · rw [List.forall_mem_cons]
                    refine ⟨⟨notQuote, ?_, ?_, ?_, ?_⟩, all⟩ <;> simp_all

/-- The characters before one that no string holds are characters that a string can hold. -/
theorem shape_of_foreign {size total : Nat} {characters : List Char} {found : Char}
    (foreign : stringEnd size characters = .foreign found total) :
    ∃ contents rest, characters = contents ++ found :: rest ∧ total = size + contents.length ∧
      ∀ character ∈ contents, isStringCharacter character := by
  induction characters generalizing size with
  | nil => cases foreign
  | cons character characters inductionHypothesis =>
      unfold stringEnd at foreign
      split at foreign
      · cases foreign
      · next notQuote =>
          split at foreign
          · cases foreign
          · next notBreak =>
              split at foreign
              · cases foreign
                exact ⟨[], characters, rfl, rfl, by simp⟩
              · next known =>
                  obtain ⟨contents, rest, shape, sized, all⟩ := inductionHypothesis foreign
                  refine ⟨character :: contents, rest, by rw [shape, List.cons_append], ?_, ?_⟩
                  · rw [sized, List.length_cons]
                    omega
                  · rw [List.forall_mem_cons]
                    refine ⟨⟨notQuote, ?_, ?_, ?_, ?_⟩, all⟩ <;> simp_all

/-- What begins a name may go on with it. -/
theorem continuesName_of_startsName {character : Char} (starts : startsName character) :
    continuesName character := by
  simp only [startsName, continuesName, Char.isAlphanum, Bool.or_eq_true] at *
  rcases starts with letter | underscore
  · exact .inl (.inl letter)
  · exact .inr underscore

/-- A condition on the first character and on those taken after it holds of the whole piece. -/
theorem forall_mem_takeWhile {keep : Char → Bool} {first : Char} (following : List Char)
    (start : keep first) : ∀ character ∈ first :: following.takeWhile keep, keep character := by
  rw [List.forall_mem_cons]
  exact ⟨start, List.all_eq_true.1 List.all_takeWhile⟩

/-- A word is read from the characters that may go on with it. -/
theorem covers_word {first : Char} {following : List Char} (starts : startsName first) :
    (word first following).Covers (first :: following)
      (first :: following.takeWhile continuesName) := by
  have all := forall_mem_takeWhile following (continuesName_of_startsName starts)
  refine ⟨by simp [word], ?_, ?_⟩
  · exact (byteLength_eq_length fun character member =>
      toNat_of_continuesName (all character member)).symm
  · intro kind isKind
    simp only [word, Option.some.injEq] at isKind
    split at isKind
    · next keyword found =>
        cases isKind
        have text := Keyword.ofText?_eq_some_iff.1 found
        show _ = keyword.text.toList
        rw [← text, String.toList_ofList]
    · next none =>
        cases isKind
        exact ⟨all, none⟩

/-- An integer constant is read from its digits. -/
theorem covers_integerConstant {first : Char} {following : List Char} {read : Lexeme}
    (digit : first.isDigit) (success : integerConstant first following = .ok read) :
    read.Covers (first :: following) (first :: following.takeWhile Char.isDigit) := by
  have all := forall_mem_takeWhile following digit
  unfold integerConstant at success
  simp only at success
  split at success
  · next small =>
      cases success
      refine ⟨by simp, ?_, ?_⟩
      · exact (byteLength_eq_length fun character member =>
          toNat_of_isDigit (all character member)).symm
      · intro kind isKind
        cases isKind
        refine ⟨all, UInt16.toNat_ofNat_of_lt' ?_⟩
        simp only [maxInteger, UInt16.size] at *
        omega
  · cases success

/-- A string constant is read from its contents between two quotes. -/
theorem covers_stringConstant {following : List Char} {read : Lexeme}
    (success : stringConstant following = .ok read) :
    ∃ piece, read.Covers ('"' :: following) piece := by
  unfold stringConstant at success
  split at success
  · next size rest closed =>
      obtain ⟨contents, shape, sized, all⟩ := shape_of_stringEnd closed
      split at success
      · cases success
      · next short =>
          cases success
          refine ⟨'"' :: (contents ++ ['"']), ?_, ?_, ?_⟩
          · simp [shape]
          · have ascii : byteLength contents = contents.length :=
              byteLength_eq_length fun character member =>
                toNat_of_isStringCharacter (all character member)
            have quote : '"'.utf8Size = 1 := by decide
            rw [byteLength_cons, byteLength_append, byteLength_cons, byteLength_nil, ascii, quote]
            show size = _
            rw [sized]
            omega
          · intro kind isKind
            cases isKind
            exact ⟨contents, rfl, by omega, all⟩
  all_goals cases success

/-- What is read from a text covers a piece at its start. -/
theorem covers_of_lexeme {first : Char} {following : List Char} {read : Lexeme}
    (success : lexeme first following = .ok read) :
    ∃ piece, read.Covers (first :: following) piece := by
  have slash : '/'.utf8Size = 1 := by decide
  have star : '*'.utf8Size = 1 := by decide
  unfold lexeme at success
  split at success
  · next isSlash =>
      subst isSlash
      split at success
      · next afterMark =>
          cases success
          refine ⟨'/' :: '/' :: afterMark.takeWhile (· ≠ '\n'), covers_trivia (by simp) ?_⟩
          rw [byteLength_cons, byteLength_cons, slash]
          omega
      · next afterMark =>
          unfold blockComment at success
          split at success
          · next size rest closed =>
              cases success
              obtain ⟨body, shape, sized⟩ := shape_of_closeComment? closed
              refine ⟨'/' :: '*' :: body, covers_trivia (by simp [shape]) ?_⟩
              rw [byteLength_cons, byteLength_cons, slash, star, sized]
              omega
          · cases success
      · cases success
        exact ⟨['/'], covers_mark .slash following⟩
  · split at success
    · next blank =>
        cases success
        refine ⟨[first], covers_trivia rfl ?_⟩
        rw [byteLength_cons, byteLength_nil, utf8Size_of_toNat (toNat_of_isBlank blank)]
    · split at success
      · next sign isMark =>
          cases success
          rw [Punctuation.ofCharacter?_eq_some_iff.1 isMark]
          exact ⟨[sign.character], covers_mark sign following⟩
      · split at success
        · next quote =>
            subst quote
            exact covers_stringConstant success
        · split at success
          · next starts =>
              cases success
              exact ⟨_, covers_word starts⟩
          · split at success
            · next digit => exact ⟨_, covers_integerConstant digit success⟩
            · cases success

/-- A text that cannot be read goes wrong at a boundary of its characters. -/
theorem distance_of_lexeme {first : Char} {following : List Char} {fault : Fault}
    (failure : lexeme first following = .error fault) :
    ∃ skipped rest, first :: following = skipped ++ rest ∧
      fault.distance = byteLength skipped := by
  have atOnce (distance : fault.distance = 0) : ∃ skipped rest,
      first :: following = skipped ++ rest ∧ fault.distance = byteLength skipped :=
    ⟨[], _, rfl, distance⟩
  unfold lexeme at failure
  split at failure
  · split at failure
    · cases failure
    · unfold blockComment at failure
      split at failure <;> cases failure
      exact atOnce rfl
    · cases failure
  · split at failure
    · cases failure
    · split at failure
      · cases failure
      · split at failure
        · next quote =>
            subst quote
            unfold stringConstant at failure
            split at failure
            · split at failure <;> cases failure
              exact atOnce rfl
            · cases failure
              exact atOnce rfl
            · cases failure
              exact atOnce rfl
            · next found size foreign =>
                cases failure
                obtain ⟨contents, rest, shape, sized, all⟩ := shape_of_foreign foreign
                refine ⟨'"' :: contents, found :: rest, by rw [shape, List.cons_append], ?_⟩
                have quote : '"'.utf8Size = 1 := by decide
                rw [byteLength_cons, quote, byteLength_eq_length fun character member =>
                  toNat_of_isStringCharacter (all character member)]
                exact sized
        · split at failure
          · cases failure
          · split at failure
            · unfold integerConstant at failure
              simp only at failure
              split at failure <;> cases failure
              exact atOnce rfl
            · cases failure
              exact atOnce rfl

end Token

end JackCompiler
