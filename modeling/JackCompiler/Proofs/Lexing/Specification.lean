import JackCompiler.Proofs.Lexing.Legible
import JackCompiler.Proofs.Lexing.Scan
import Mathlib.Logic.Basic
import Mathlib.Algebra.Group.Nat.Defs

/-!
# The reader and the lexical grammar

Every text has a reading by the lexical grammar, to its end or to a place where it is stuck, and
what the reader of tokens yields is that reading: its tokens, or the error of that place.
-/

namespace JackCompiler

namespace Lexing

/-! ## Every text can be split or is stuck -/

/-- A segment can be split off a text. -/
def Splits (text : List Char) : Prop :=
  ∃ segment : Segment, ∃ rest, text = segment.piece ++ rest ∧ segment.Fits rest

/-- A text is stuck, for whatever reason. -/
def IsStuck (text : List Char) : Prop :=
  ∃ skipped covered rest error, text = skipped ++ covered ++ rest ∧
    Stuck skipped covered rest error

section Splitting

variable {first : Char} (following : List Char)

/-- A text that begins with a token splits. -/
theorem splits_of_token (kind : Token.Kind) {piece rest : List Char}
    (written : Written piece kind) (ends : Ends rest kind) : Splits (piece ++ rest) :=
  ⟨⟨some kind, piece⟩, rest, rfl, written, ends⟩

/-- A text that begins with a blank or a comment splits. -/
theorem splits_of_trivia {piece rest : List Char} (trivia : Trivia piece rest) :
    Splits (piece ++ rest) :=
  ⟨⟨none, piece⟩, rest, rfl, trivia⟩

/-- A text that begins with a mark splits. -/
theorem splits_of_mark {sign : Punctuation} {rest : List Char}
    (ends : Ends rest (.punctuation sign)) : Splits (sign.character :: rest) :=
  splits_of_token (.punctuation sign) rfl ends

/-- A text that begins with a slash splits, unless it is a comment that is not closed. -/
theorem splits_or_stuck_slash : Splits ('/' :: following) ∨ IsStuck ('/' :: following) := by
  by_cases ends : Ends following (.punctuation .slash)
  · exact .inl (splits_of_mark ends)
  · simp only [Ends, not_forall, not_and_or, ne_eq, not_not] at ends
    obtain ⟨next, isNext, opens⟩ := ends
    obtain ⟨others, rfl⟩ := List.head?_eq_some_iff.1 isNext
    rcases opens with rfl | rfl
    · obtain ⟨body, rest, rfl, inside, stops⟩ := exists_run (fun next => next ≠ '\n') others
      have isLine : Trivia ('/' :: '/' :: body) rest :=
        .lineComment (fun member => absurd (inside _ member) (by decide))
          fun next isNext => by simpa using stops next isNext
      exact .inl (splits_of_trivia isLine)
    · rcases exists_closing others with inside | ⟨body, rest, rfl, inside⟩
      · exact .inr ⟨[], '/' :: '*' :: others, [], _, by simp, .unclosedComment inside⟩
      · have isBlock : Trivia ('/' :: '*' :: (body ++ ['*', '/'])) rest := .blockComment inside
        have splits := splits_of_trivia isBlock
        simp only [List.cons_append, List.append_assoc, List.nil_append] at splits
        exact .inl splits

/-- A text that begins with a quote splits or is stuck in a string constant. -/
theorem splits_or_stuck_quote : Splits ('"' :: following) ∨ IsStuck ('"' :: following) := by
  obtain ⟨contents, rest, rfl, inside, ends⟩ := exists_contents following
  cases rest with
  | nil =>
      rw [List.append_nil]
      exact .inr ⟨[], '"' :: contents, [], _, by simp, .unclosedString inside⟩
  | cons next rest =>
      have shape : '"' :: (contents ++ next :: rest) = '"' :: (contents ++ [next]) ++ rest := by simp
      by_cases isQuote : next = '"'
      · subst isQuote
        rw [shape]
        by_cases long : Token.maxStringLength < contents.length
        · exact .inr ⟨[], _, rest, _, rfl, .stringTooLong inside long⟩
        · exact .inl (splits_of_token .string ⟨contents, rfl, inside, Nat.le_of_not_lt long⟩ trivial)
      · by_cases isBreak : next = '\n' ∨ next = '\r'
        · rw [shape]
          exact .inr ⟨[], _, rest, _, rfl, .multilineString inside isBreak⟩
        · have isForeign : next = '\x00' ∨ 128 ≤ next.toNat := by
            have not := ends next rfl
            simp only [Token.isStringCharacter, not_and_or, not_not, Nat.not_lt] at not
            rcases not with quote | feed | back | nul | large
            · exact absurd quote isQuote
            · exact absurd (.inl feed) isBreak
            · exact absurd (.inr back) isBreak
            · exact .inl nul
            · exact .inr large
          exact .inr ⟨'"' :: contents, [next], rest, _, by simp, .foreign inside isForeign⟩

/-- A text that begins like a name splits. -/
theorem splits_of_nameStart (start : NameStart first) : Splits (first :: following) := by
  classical
  obtain ⟨others, rest, rfl, inside, stops⟩ :=
    exists_run (fun character => decide (NamePart character)) following
  have inside : ∀ character ∈ others, NamePart character :=
    fun character member => of_decide_eq_true (inside character member)
  have ends : ∀ next ∈ rest.head?, ¬NamePart next :=
    fun next isNext part => stops next isNext (decide_eq_true part)
  by_cases reserved : ∃ word : Keyword, first :: others = word.text.toList
  · obtain ⟨word, isWord⟩ := reserved
    exact splits_of_token (.keyword word) isWord ends
  · exact splits_of_token .identifier
      ⟨first, others, rfl, start, inside, not_exists.1 reserved⟩ ends

/-- A text that begins with a digit splits, unless the constant is too large. -/
theorem splits_or_stuck_digit (digit : Digit first) :
    Splits (first :: following) ∨ IsStuck (first :: following) := by
  classical
  obtain ⟨others, rest, rfl, inside, stops⟩ :=
    exists_run (fun character => decide (Digit character)) following
  have inside : ∀ character ∈ first :: others, Digit character := by
    rw [List.forall_mem_cons]
    exact ⟨digit, fun character member => of_decide_eq_true (inside character member)⟩
  have ends : ∀ next ∈ rest.head?, ¬Digit next :=
    fun next isNext part => stops next isNext (decide_eq_true part)
  by_cases small : Text.decimalValue (first :: others) ≤ Token.maxInteger
  · have value : (UInt16.ofNat (Text.decimalValue (first :: others))).toNat =
        Text.decimalValue (first :: others) := by
      refine UInt16.toNat_ofNat_of_lt' (Nat.lt_of_le_of_lt small (by decide))
    exact .inl (splits_of_token (.integer _)
      ⟨by simp, inside, value.symm, value.symm ▸ small⟩ ends)
  · exact .inr ⟨[], first :: others, rest, _, rfl,
      .integerOutOfRange (by simp) inside ends (Nat.lt_of_not_le small)⟩

/-- From a text that is not empty a segment can be split off, or the text is stuck. -/
theorem splits_or_stuck (first : Char) :
    Splits (first :: following) ∨ IsStuck (first :: following) := by
  by_cases blank : Blank first
  · exact .inl (splits_of_trivia (.blank blank))
  · by_cases isMark : ∃ sign : Punctuation, first = sign.character
    · obtain ⟨sign, rfl⟩ := isMark
      cases sign with
      | slash => exact splits_or_stuck_slash following
      | _ => exact .inl (splits_of_mark trivial)
    · by_cases quote : first = '"'
      · subst quote
        exact splits_or_stuck_quote following
      · by_cases start : NameStart first
        · exact .inl (splits_of_nameStart following start)
        · by_cases digit : Digit first
          · exact splits_or_stuck_digit following digit
          · exact .inr ⟨[], [first], following, _, rfl,
              .unexpected blank (not_exists.1 isMark) quote start digit⟩

end Splitting

/-- Every text has a reading, to its end or to where it is stuck. -/
theorem exists_reading (text : List Char) :
    ∃ segments rest, Reading segments text rest ∧ (rest = [] ∨ IsStuck rest) := by
  induction isLength : text.length using Nat.strongRecOn generalizing text with
  | ind length inductionHypothesis =>
      cases text with
      | nil => exact ⟨[], [], .nil [], .inl rfl⟩
      | cons first following =>
          rcases splits_or_stuck following first with ⟨segment, rest, shape, fits⟩ | stuck
          · have positive := List.length_pos_iff.2 fits.ne_nil
            have shorter : rest.length < length := by
              rw [← isLength, shape, List.length_append]
              omega
            obtain ⟨segments, last, reading, ending⟩ := inductionHypothesis _ shorter rest rfl
            exact ⟨segment :: segments, last, shape ▸ .cons fits reading, ending⟩
          · exact ⟨[], _, .nil _, .inr stuck⟩

/-! ## The reader follows a reading -/

section Following

variable {source : String} {segments : List Segment} {text rest : List Char}

/-- The bytes of a source are those of its parts. -/
theorem size_of_toList (shape : source.toList = text) :
    source.utf8ByteSize = Token.byteLength text := by
  rw [Token.byteLength_eq, ← shape, String.ofList_toList]

/-- Whether the tokens among segments are no longer than a span can be. -/
def Short (segments : List Segment) : Prop :=
  ∀ segment ∈ segments, segment.kind?.isSome → segment.piece.length ≤ Span.maxLength

/-- What is read at the start of a text comes before what is read of the rest. -/
theorem readAll_of_lexeme {first : Char} {following : List Char} {read : Token.Lexeme}
    (success : Token.lexeme first following = .ok read) (offset : Nat) (before : List Token) :
    Token.readAll offset before (first :: following) =
      Token.readAll (offset + read.size)
        (match read.kind? with
          | some kind => ⟨kind, Span.ofBounds offset (offset + read.size)⟩ :: before
          | none => before) read.rest := by
  rw [Token.readAll]
  split
  · next failure => cases success.symm.trans failure
  · next found =>
      cases success.symm.trans found
      rfl

/-- A fault at the start of a text is the error of the text. -/
theorem readAll_of_fault {first : Char} {following : List Char} {fault : Token.Fault}
    (failure : Token.lexeme first following = .error fault) (offset : Nat) (before : List Token) :
    Token.readAll offset before (first :: following) =
      .error ((Span.ofBounds (offset + fault.distance)
        (offset + fault.distance + fault.size)).locate fault.error) := by
  rw [Token.readAll]
  split
  · next found =>
      cases failure.symm.trans found
      rfl
  · next success => cases failure.symm.trans success

/-- The reader goes through all segments of a reading. The induction is on the reading, and each of
its segments is what the reader takes from there on. -/
theorem readAll_of_reading (reading : Reading segments text rest) (short : Short segments)
    (offset : Nat) (before : List Token) :
    Token.readAll offset before text =
      Token.readAll (offset + Token.byteLength (characters segments))
        ((tokens offset segments).reverse ++ before) rest := by
  induction reading generalizing offset before with
  | nil => rfl
  | @cons segment segments middle rest fits _ inductionHypothesis =>
      rw [Short, List.forall_mem_cons] at short
      obtain ⟨first, following, shape⟩ :=
        List.exists_cons_of_ne_nil (List.append_ne_nil_of_left_ne_nil fits.ne_nil middle)
      rw [shape, readAll_of_lexeme (lexeme_of_fits fits short.1 shape.symm)]
      rw [inductionHypothesis short.2]
      obtain ⟨kind?, piece⟩ := segment
      cases kind? <;>
        simp [characters, tokens, Token.byteLength_append, Nat.add_assoc]

/-- No character has less than a byte. -/
theorem length_le_byteLength (piece : List Char) : piece.length ≤ Token.byteLength piece := by
  induction piece with
  | nil => exact Nat.le_refl 0
  | cons first others inductionHypothesis =>
      rw [Token.byteLength_cons, List.length_cons, Nat.add_comm]
      exact Nat.add_le_add first.utf8Size_pos inductionHypothesis

/-- In a text of fewer bytes than a span can count, all tokens are short. -/
theorem Reading.short (reading : Reading segments text rest)
    (small : Token.byteLength text < 2 ^ 32) : Short segments := by
  induction reading with
  | nil => exact List.forall_mem_nil _
  | @cons segment segments middle rest _ _ inductionHypothesis =>
      rw [Token.byteLength_append] at small
      have length := length_le_byteLength segment.piece
      refine List.forall_mem_cons.2 ⟨fun _ => ?_, inductionHypothesis (by omega)⟩
      simp only [Span.maxLength]
      omega

/-- A text with a reading to its end is read as its tokens. -/
theorem ofText_of_reading (reading : Reading segments source.toList [])
    (short : Short segments) :
    TokenStream.ofText source =
      .ok (.ofTokens (tokens 0 segments) source.utf8ByteSize) := by
  rw [TokenStream.ofText, readAll_of_reading reading short, Token.readAll]
  simp [Except.map]

/-- The bytes of a source that is stuck are those before the error, those at fault and the rest. -/
theorem size_of_stuck {skipped covered : List Char}
    (reading : Reading segments source.toList (skipped ++ covered ++ rest)) :
    source.utf8ByteSize = Token.byteLength (characters segments ++ skipped) +
      Token.byteLength covered + Token.byteLength rest := by
  rw [size_of_toList reading.text_eq]
  simp only [Token.byteLength_append, Nat.add_assoc]

/-- A text with a reading to a place where it is stuck is not read, for the error of that place. -/
theorem ofText_of_stuck {skipped covered : List Char} {error : LexicalError}
    (small : source.utf8ByteSize < 2 ^ 32)
    (reading : Reading segments source.toList (skipped ++ covered ++ rest))
    (stuck : Stuck skipped covered rest error) :
    TokenStream.ofText source =
      .error ((Span.ofBounds (Token.byteLength (characters segments ++ skipped))
        (Token.byteLength (characters segments ++ skipped ++ covered))).locate error) := by
  have size := size_of_stuck reading
  have length := length_le_byteLength covered
  have short := reading.short (size_of_toList rfl ▸ small)
  have shortError : covered.length ≤ Span.maxLength := by
    rw [Span.maxLength]
    omega
  obtain ⟨first, following, shape⟩ := List.exists_cons_of_ne_nil stuck.ne_nil
  rw [TokenStream.ofText, readAll_of_reading reading short, shape,
    readAll_of_fault (lexeme_of_stuck stuck shortError shape.symm)]
  simp [Except.map, Token.byteLength_append, Nat.add_assoc]

end Following

/-! ## The tokens of a reading -/

section Places

variable {source : String} {segments : List Segment} {before text rest : List Char}

/-- A token has its place in a source: its span covers a piece that is written as tokens of its kind
are and that ends where it has to, and cuts that piece out of the source. -/
structure Placed (source : String) (token : Token) : Prop where
  ordered : token.span.lo < token.span.hi
  inside : token.span.hi ≤ source.utf8ByteSize
  covers : ∃ before piece after, source.toList = before ++ piece ++ after ∧
    token.span.lo = Token.byteLength before ∧
    token.span.hi = Token.byteLength (before ++ piece) ∧
    Written piece token.kind ∧ Ends after token.kind ∧
    token.text? source = some (String.ofList piece)

/-- A span ends no later than it was made to. -/
theorem hi_ofBounds_le {lo hi : Nat} (ordered : lo ≤ hi) :
    (Span.ofBounds lo hi).hi ≤ hi := by
  have length : (Span.ofBounds lo hi).length.toNat ≤ hi - lo := by
    rw [Span.ofBounds, UInt32.toNat_ofNat']
    exact Nat.le_trans (Nat.mod_le _ _) (Nat.min_le_left _ _)
  rw [Span.hi, Span.ofBounds_lo]
  omega

/-- A piece that is not empty has bytes. -/
theorem byteLength_pos {piece : List Char} (some : piece ≠ []) : 0 < Token.byteLength piece := by
  obtain ⟨first, others, rfl⟩ := List.exists_cons_of_ne_nil some
  rw [Token.byteLength_cons]
  exact Nat.add_pos_left first.utf8Size_pos _

/-- A piece that is short enough for a span and written as a token is the place of that token. -/
theorem placed_of_written {kind : Token.Kind} {piece after : List Char}
    (short : Token.byteLength piece ≤ Span.maxLength)
    (shape : source.toList = before ++ piece ++ after)
    (written : Written piece kind) (ends : Ends after kind) :
    Placed source (Token.spanning kind before piece) := by
  have size := size_of_toList shape
  rw [Token.byteLength_append, Token.byteLength_append] at size
  have positive := byteLength_pos written.ne_nil
  have hi : (Token.spanning kind before piece).span.hi =
      Token.byteLength before + Token.byteLength piece :=
    Span.hi_ofBounds (Nat.le_add_right _ _) (by rwa [Nat.add_sub_cancel_left])
  refine ⟨?_, ?_, before, piece, after, shape, rfl, ?_, written, ends, ?_⟩
  · rw [hi]
    exact Nat.lt_add_of_pos_right positive
  · rw [hi]
    omega
  · rw [hi, Token.byteLength_append]
  · exact Text.slice?_of_toList shape rfl hi

/-- The tokens of a reading of a short source have their places in it. -/
theorem Reading.placed (reading : Reading segments text rest)
    (small : source.utf8ByteSize < 2 ^ 32) (shape : source.toList = before ++ text) :
    ∀ token ∈ tokens (Token.byteLength before) segments, Placed source token := by
  induction reading generalizing before with
  | nil => exact List.forall_mem_nil _
  | @cons segment segments middle rest fits _ inductionHypothesis =>
      rw [← List.append_assoc] at shape
      have others := inductionHypothesis shape
      rw [Token.byteLength_append] at others
      have size := size_of_toList shape
      rw [Token.byteLength_append, Token.byteLength_append] at size
      have short : Token.byteLength segment.piece ≤ Span.maxLength := by
        rw [Span.maxLength]
        omega
      obtain ⟨kind?, piece⟩ := segment
      cases kind? with
      | none => exact others
      | some kind =>
          exact List.forall_mem_cons.2 ⟨placed_of_written short shape fits.1 fits.2, others⟩

/-- Tokens begin no earlier than the segments that they are taken from. -/
theorem le_lo_of_mem_tokens (offset : Nat) (segments : List Segment) :
    ∀ token ∈ tokens offset segments, offset ≤ token.span.lo := by
  induction segments generalizing offset with
  | nil => exact List.forall_mem_nil _
  | cons segment segments inductionHypothesis =>
      obtain ⟨kind?, piece⟩ := segment
      have later : ∀ token ∈ tokens (offset + Token.byteLength piece) segments,
          offset ≤ token.span.lo := fun token member =>
        Nat.le_trans (Nat.le_add_right _ _) (inductionHypothesis _ token member)
      cases kind? with
      | none => exact later
      | some kind => exact List.forall_mem_cons.2 ⟨Nat.le_refl offset, later⟩

/-- The tokens of segments follow one another. -/
theorem pairwise_tokens (offset : Nat) (segments : List Segment) :
    (tokens offset segments).Pairwise fun earlier later => earlier.span.hi ≤ later.span.lo := by
  induction segments generalizing offset with
  | nil => exact .nil
  | cons segment segments inductionHypothesis =>
      obtain ⟨kind?, piece⟩ := segment
      cases kind? with
      | none => exact inductionHypothesis _
      | some kind =>
          refine List.pairwise_cons.2 ⟨fun token member => ?_, inductionHypothesis _⟩
          exact Nat.le_trans (hi_ofBounds_le (Nat.le_add_right _ _))
            (le_lo_of_mem_tokens _ segments token member)

end Places

/-! ## The specification -/

section Specified

variable {source : String} {segments : List Segment} {text rest : List Char}

/-- A span is known by its ends. -/
theorem eq_ofBounds_iff {span : Span} {lo hi : Nat} (ordered : lo ≤ hi)
    (short : hi - lo ≤ Span.maxLength) :
    span = Span.ofBounds lo hi ↔ span.lo = lo ∧ span.hi = hi := by
  constructor
  · rintro rfl
    exact ⟨rfl, Span.hi_ofBounds ordered short⟩
  · rintro ⟨rfl, stop⟩
    have same : span.length = (Span.ofBounds span.lo hi).length := by
      rw [← UInt32.toNat_inj, Span.length_ofBounds short, ← stop, Span.hi,
        Nat.add_sub_cancel_left]
    exact congrArg (Span.mk span.lo) same

/-- The error of a text that is stuck is known by its cause and the ends of its span. -/
theorem ofText_eq_error_iff {skipped covered : List Char} {error : LexicalError}
    (small : source.utf8ByteSize < 2 ^ 32)
    (reading : Reading segments source.toList (skipped ++ covered ++ rest))
    (stuck : Stuck skipped covered rest error) (failure : Located LexicalError) :
    TokenStream.ofText source = .error failure ↔ failure.value = error ∧
      failure.span.lo = Token.byteLength (characters segments ++ skipped) ∧
      failure.span.hi = Token.byteLength (characters segments ++ skipped ++ covered) := by
  have size := size_of_stuck reading
  have ordered : Token.byteLength (characters segments ++ skipped) ≤
      Token.byteLength (characters segments ++ skipped ++ covered) := by
    rw [Token.byteLength_append (_ ++ _)]
    exact Nat.le_add_right _ _
  have short : Token.byteLength (characters segments ++ skipped ++ covered) -
      Token.byteLength (characters segments ++ skipped) ≤ Span.maxLength := by
    rw [Token.byteLength_append (_ ++ _), Nat.add_sub_cancel_left, Span.maxLength]
    omega
  rw [ofText_of_stuck small reading stuck, ← eq_ofBounds_iff ordered short, Except.error.injEq]
  constructor
  · rintro rfl
    exact ⟨rfl, rfl⟩
  · rintro ⟨rfl, same⟩
    exact congrArg (Located.mk · failure.value) same.symm

/-- The reader of tokens is the lexical grammar. Of a text that is shorter than the longest span, it
yields a stream exactly if the text has a reading to its end, and then the tokens of that reading;
and it yields an error exactly if the text has a reading to a place where it is stuck, and then the
error of that place, located there. The tokens of a reading follow one another, and each has its
place in the text. -/
theorem ofText_specified (source : String) (small : source.utf8ByteSize < 2 ^ 32) :
    (∀ stream, TokenStream.ofText source = .ok stream ↔
      ∃ segments, Reading segments source.toList [] ∧
        stream = .ofTokens (tokens 0 segments) source.utf8ByteSize) ∧
    (∀ failure, TokenStream.ofText source = .error failure ↔
      ∃ segments skipped covered rest,
        Reading segments source.toList (skipped ++ covered ++ rest) ∧
        Stuck skipped covered rest failure.value ∧
        failure.span.lo = Token.byteLength (characters segments ++ skipped) ∧
        failure.span.hi = Token.byteLength (characters segments ++ skipped ++ covered)) ∧
    ∀ segments, Reading segments source.toList [] →
      (tokens 0 segments).Pairwise (fun earlier later => earlier.span.hi ≤ later.span.lo) ∧
      ∀ token ∈ tokens 0 segments, Placed source token := by
  have onReading (segments : List Segment) (reading : Reading segments source.toList []) :=
    ofText_of_reading reading (reading.short (size_of_toList rfl ▸ small))
  refine ⟨fun stream => ⟨fun success => ?_, ?_⟩, fun failure => ⟨fun failed => ?_, ?_⟩,
    fun segments reading => ⟨pairwise_tokens 0 segments, ?_⟩⟩
  · obtain ⟨segments, rest, reading, rfl | ⟨skipped, covered, rest, error, rfl, stuck⟩⟩ :=
      exists_reading source.toList
    · exact ⟨segments, reading, Except.ok.inj (success.symm.trans (onReading segments reading))⟩
    · obtain ⟨failure, failed⟩ : ∃ failure, TokenStream.ofText source = .error failure :=
        ⟨_, ofText_of_stuck small reading stuck⟩
      cases success.symm.trans failed
  · rintro ⟨segments, reading, rfl⟩
    exact onReading segments reading
  · obtain ⟨segments, rest, reading, rfl | ⟨skipped, covered, rest, error, rfl, stuck⟩⟩ :=
      exists_reading source.toList
    · cases failed.symm.trans (onReading segments reading)
    · obtain ⟨rfl, place⟩ := (ofText_eq_error_iff small reading stuck failure).1 failed
      exact ⟨segments, skipped, covered, rest, reading, stuck, place⟩
  · rintro ⟨segments, skipped, covered, rest, reading, stuck, place⟩
    exact (ofText_eq_error_iff small reading stuck failure).2 ⟨rfl, place⟩
  · exact reading.placed small (List.nil_append _).symm

end Specified

/-- Stars before the closing mark belong to the comment, a slash in front of a digit is an operator,
and zeros in front of a number do not count. -/
theorem ofText_specified_of_slashes : "/*é**/x/007".utf8ByteSize < 2 ^ 32 ∧
    TokenStream.ofText "/*é**/x/007" = .ok (.ofTokens
      [⟨.identifier, ⟨7, 1⟩⟩, ⟨.punctuation .slash, ⟨8, 1⟩⟩, ⟨.integer 7, ⟨9, 3⟩⟩] 12) := by
  have small : "/*é**/x/007".utf8ByteSize < 2 ^ 32 := by decide +kernel
  have shape : "/*é**/x/007".toList =
      "/*é**/".toList ++ (['x'] ++ (['/'] ++ (['0', '0', '7'] ++ []))) := by decide +kernel
  have comment : Trivia "/*é**/".toList (['x'] ++ (['/'] ++ (['0', '0', '7'] ++ []))) :=
    @Trivia.blockComment ['é', '*'] _ (by decide)
  have name : Written ['x'] .identifier :=
    ⟨'x', [], rfl, .inr (.inl (by decide)), List.forall_mem_nil _, fun word => by cases word <;> decide⟩
  have number : Written ['0', '0', '7'] (.integer 7) :=
    ⟨by decide, by simp [Digit], by decide, by decide⟩
  have reading : Reading
      [⟨none, "/*é**/".toList⟩, ⟨some .identifier, ['x']⟩, ⟨some (.punctuation .slash), ['/']⟩,
        ⟨some (.integer 7), ['0', '0', '7']⟩] "/*é**/x/007".toList [] := by
    rw [shape]
    exact .cons comment (.cons ⟨name, by simp [Ends, NamePart, NameStart, Digit]⟩
      (.cons ⟨rfl, by simp [Ends]⟩ (.cons ⟨number, by simp [Ends]⟩ (.nil []))))
  refine ⟨small, ((ofText_specified _ small).1 _).2 ⟨_, reading, ?_⟩⟩
  exact congrArg₂ TokenStream.ofTokens (by decide +kernel) (by decide +kernel)

end Lexing

end JackCompiler
