import JackCompiler.Proofs.Grammar.Terminal
import JackCompiler.Proofs.Lexing.Lexeme

/-!
# Tokens that were read show terminals

Every token that is read from a text cuts its own text out of the source again, also one whose span
was clipped, so all of them show terminals, and those that show names show no reserved words. The
only assumption is that the offsets of the source are offsets of a machine's memory.
-/

namespace JackCompiler

open Grammar

/-- A part of a text that lies between two others is cut out by their sizes. -/
theorem Text.slice?_of_toList {source : String} {before part after : List Char}
    (shape : source.toList = before ++ part ++ after) {lo hi : Nat}
    (start : lo = Token.byteLength before) (stop : hi = lo + Token.byteLength part) :
    Text.slice? source lo hi = some (String.ofList part) := by
  refine Text.slice?_eq_some_iff.2 ⟨String.ofList before, String.ofList after, ?_, ?_, ?_⟩
  · rw [← String.ofList_append, ← String.ofList_append, ← shape, String.ofList_toList]
  · rw [start, Token.byteLength_eq]
  · rw [stop, Token.byteLength_eq]

/-- A span that starts at a boundary of the characters has the position behind those before it. -/
theorem Span.position?_of_toList {source : String} {span : Span} {before after : List Char}
    (shape : source.toList = before ++ after) (start : span.lo = Token.byteLength before) :
    span.position? source = some (Position.after before) := by
  have size : source.utf8ByteSize = Token.byteLength before + Token.byteLength after := by
    rw [← Token.byteLength_append, Token.byteLength_eq, ← shape, String.ofList_toList]
  have cut : Text.slice? source 0 (min span.lo source.utf8ByteSize) =
      some (String.ofList before) := by
    rw [start, Nat.min_eq_left (by omega)]
    rw [← List.nil_append before] at shape
    exact Text.slice?_of_toList shape rfl (Nat.zero_add _).symm
  rw [Span.position?, cut, Option.map_some, String.toList_ofList]

namespace Token

variable {source : String} {before piece after : List Char}

/-- The token of a kind that was read from a piece. -/
def spanning (kind : Kind) (before piece : List Char) : Token :=
  ⟨kind, Span.ofBounds (byteLength before) (byteLength before + byteLength piece)⟩

theorem length_spanning (kind : Kind) :
    (spanning kind before piece).span.length.toNat = min (byteLength piece) Span.maxLength := by
  simp only [spanning, Span.ofBounds, Nat.add_sub_cancel_left, Span.maxLength]
  rw [UInt32.toNat_ofNat_of_lt']
  show min _ (2 ^ 32 - 1) < 2 ^ 32
  omega

/-- A token read from ASCII characters has them as its text, up to the longest span. -/
theorem text?_of_ascii (kind : Kind) (shape : source.toList = before ++ piece ++ after)
    (ascii : ∀ character ∈ piece, character.toNat < 128) :
    (spanning kind before piece).text? source =
      some (String.ofList (piece.take Span.maxLength)) := by
  have shape' : source.toList =
      before ++ piece.take Span.maxLength ++ (piece.drop Span.maxLength ++ after) := by
    rw [shape, List.append_assoc, List.append_assoc, ← List.append_assoc (piece.take _),
      List.take_append_drop]
  refine Text.slice?_of_toList shape' rfl ?_
  rw [Span.hi, length_spanning, byteLength_eq_length ascii, byteLength_eq_length
    fun character member => ascii character (List.mem_of_mem_take member), List.length_take,
    Nat.min_comm]

/-- Moving both ends of a span that covers quotes and what is between them leaves the latter. -/
theorem offset_ofBounds {lo length : Nat} (fits : lo + length + 1 ≤ Span.maxOffset)
    (short : length + 2 ≤ Span.maxLength) :
    ((Span.ofBounds lo (lo + (length + 2))).offset 1 (-1)).lo = lo + 1 ∧
      ((Span.ofBounds lo (lo + (length + 2))).offset 1 (-1)).hi = lo + 1 + length := by
  have hi : (Span.ofBounds lo (lo + (length + 2))).hi = lo + (length + 2) :=
    Span.hi_ofBounds (by omega) (by omega)
  have newLo : Span.moved lo 1 = lo + 1 := by
    unfold Span.moved
    omega
  have newHi : Span.moved (lo + (length + 2)) (-1) = lo + 1 + length := by
    unfold Span.moved
    omega
  have moved : (Span.ofBounds lo (lo + (length + 2))).offset 1 (-1) =
      Span.ofBounds (lo + 1) (lo + 1 + length) := by
    show Span.ofBounds (Span.moved lo 1) (max (Span.moved (Span.hi _) (-1)) (Span.moved lo 1)) = _
    rw [hi, newLo, newHi, Nat.max_eq_left (by omega)]
  rw [moved]
  exact ⟨rfl, Span.hi_ofBounds (by omega) (by omega)⟩

/-- A token read from a string constant has what is between its quotes as its contents. -/
theorem contents?_of_quoted {contents : List Char}
    (fits : source.utf8ByteSize ≤ Span.maxOffset)
    (shape : source.toList = before ++ '"' :: (contents ++ ['"']) ++ after)
    (short : contents.length ≤ maxStringLength)
    (ascii : ∀ character ∈ contents, character.toNat < 128) :
    (spanning .string before ('"' :: (contents ++ ['"']))).contents? source =
      some (String.ofList contents) := by
  have quote : '"'.utf8Size = 1 := by decide
  have size : byteLength ('"' :: (contents ++ ['"'])) = contents.length + 2 := by
    rw [byteLength_cons, byteLength_append, byteLength_cons, byteLength_nil, quote,
      byteLength_eq_length ascii]
    omega
  have total : byteLength before + (contents.length + 2) ≤ source.utf8ByteSize := by
    rw [← @String.ofList_toList source, shape, ← byteLength_eq, byteLength_append,
      byteLength_append, size]
    omega
  have shape' : source.toList = before ++ ['"'] ++ contents ++ (['"'] ++ after) := by
    simp [shape]
  have bound : contents.length + 2 ≤ Span.maxLength := by
    simp only [maxStringLength, Span.maxLength] at *
    omega
  obtain ⟨lo, hi⟩ := @offset_ofBounds (byteLength before) _ (by omega) bound
  unfold contents? spanning
  rw [size]
  refine Text.slice?_of_toList shape' ?_ ?_
  · rw [lo, byteLength_append, byteLength_cons, byteLength_nil, quote]
  · rw [lo, hi, byteLength_eq_length ascii]

/-- Tokens consist of ASCII characters. -/
theorem ascii_of_spells {kind : Kind} (spells : Spells piece kind) :
    ∀ character ∈ piece, character.toNat < 128 := by
  cases kind with
  | keyword word =>
      have decided : word.text.toList.all (fun character => character.toNat < 128) = true := by
        cases word <;> decide
      rw [spells]
      exact fun character member => of_decide_eq_true (List.all_eq_true.1 decided character member)
  | punctuation sign =>
      rw [spells, List.forall_mem_singleton]
      cases sign <;> decide
  | identifier => exact fun character member => toNat_of_continuesName (spells.1 character member)
  | integer value => exact fun character member => toNat_of_isDigit (spells.1 character member)
  | string =>
      obtain ⟨contents, rfl, _, inside⟩ := spells
      exact toNat_of_quoted inside

/-- No reserved word is clipped. -/
theorem text?_of_reserved {word : Keyword} (shape : source.toList = before ++ piece ++ after)
    (spells : Spells piece (.keyword word)) :
    (spanning (.keyword word) before piece).text? source = some word.text := by
  have short : word.text.toList.length ≤ Span.maxLength := by
    cases word <;> decide
  rw [text?_of_ascii _ shape (ascii_of_spells spells), spells, List.take_of_length_le short,
    String.ofList_toList]

/-- Whatever a piece spells, the token read from it shows a terminal. -/
theorem isSome_terminal?_of_spells {kind : Kind} (fits : source.utf8ByteSize ≤ Span.maxOffset)
    (shape : source.toList = before ++ piece ++ after) (spells : Spells piece kind) :
    ((spanning kind before piece).terminal? source).isSome := by
  cases kind with
  | punctuation sign => rfl
  | integer value => rfl
  | keyword word =>
      show (if _ then _ else _ : Option Terminal).isSome
      rw [if_pos (text?_of_reserved shape spells)]
      rfl
  | identifier =>
      show (Option.map _ _).isSome
      rw [text?_of_ascii .identifier shape (ascii_of_spells spells)]
      rfl
  | string =>
      obtain ⟨contents, rfl, short, all⟩ := spells
      have ascii : ∀ character ∈ contents, character.toNat < 128 :=
        fun character member => toNat_of_isStringCharacter (all character member)
      have found := contents?_of_quoted fits shape short ascii
      have small : (String.ofList contents).utf8ByteSize ≤ Library.maxStringLength := by
        rw [← byteLength_eq, byteLength_eq_length ascii]
        exact short
      simp only [terminal?, spanning] at found ⊢
      rw [found]
      show (if _ then _ else _ : Option Terminal).isSome
      rw [if_pos small]
      rfl

/-- A token that shows a name is no reserved word, also when its text was clipped: it is then longer
than all of them. -/
theorem not_reserved_of_name {kind : Kind} {text : String}
    (shape : source.toList = before ++ piece ++ after) (spells : Spells piece kind)
    (shown : (spanning kind before piece).terminal? source = some (.name text)) :
    Keyword.ofText? text = none := by
  have isIdentifier : kind = .identifier := kind_of_terminal? shown
  subst isIdentifier
  have found := text?_of_ascii .identifier shape (ascii_of_spells spells)
  rw [text?_of_name shown, Option.some.injEq] at found
  rcases Nat.le_total piece.length Span.maxLength with short | long
  · rw [found, List.take_of_length_le short]
    exact spells.2
  · cases reserved : Keyword.ofText? text with
    | none => rfl
    | some word =>
        have same : word.text.toList = piece.take Span.maxLength := by
          rw [← Keyword.ofText?_eq_some_iff.1 reserved, found, String.toList_ofList]
        have clipped : (piece.take Span.maxLength).length = Span.maxLength :=
          List.length_take_of_le long
        have small : word.text.toList.length < Span.maxLength := by
          cases word <;> decide
        rw [same, clipped] at small
        exact absurd small (Nat.lt_irrefl _)

/-- A piece that was read is not empty, since something is read. -/
theorem Lexeme.Covers.ne_nil {first : Char} {following : List Char} {read : Lexeme}
    (covers : read.Covers (first :: following) piece)
    (reading : lexeme first following = .ok read) : piece ≠ [] := by
  rintro rfl
  have same := congrArg List.length covers.shape
  have shorter := Lexeme.length_rest_le reading
  simp only [List.nil_append, List.length_cons] at same
  omega

/-- What holds of every token that is read from the source somewhere holds of all that are read. The
induction is on the reading, with the characters before the offset at hand. -/
theorem forall_of_lexemes {Holds : Token → Prop}
    (each : ∀ {kind : Kind} {before piece following : List Char} {first : Char} {read : Lexeme},
      lexeme first following = .ok read → read.kind? = some kind →
        read.Covers (first :: following) piece → source.toList = before ++ piece ++ read.rest →
        Holds (spanning kind before piece))
    {offset : Nat} {tokens result : List Token} {before characters : List Char}
    (shape : source.toList = before ++ characters) (reached : offset = byteLength before)
    (sofar : ∀ token ∈ tokens, Holds token)
    (success : readAll offset tokens characters = .ok result) :
    ∀ token ∈ result, Holds token := by
  fun_induction readAll offset tokens characters generalizing before with
  | case1 offset tokens =>
      cases success
      intro token member
      exact sofar token (List.mem_reverse.1 member)
  | case2 => cases success
  | case3 offset tokens first following read reading _ stop extended =>
      rename_i inductionHypothesis
      obtain ⟨piece, covers⟩ := covers_of_lexeme reading
      rw [covers.shape, ← List.append_assoc] at shape
      have advanced : stop = byteLength (before ++ piece) := by
        rw [byteLength_append, ← reached, ← covers.size]
      refine inductionHypothesis shape advanced ?_ success
      cases isKind : read.kind? with
      | none =>
          have same : extended = tokens := by simp only [extended, isKind]
          rw [same]
          exact sofar
      | some kind =>
          have same : extended = spanning kind before piece :: tokens := by
            simp only [extended, isKind, spanning, ← reached, ← covers.size, stop]
          rw [same, List.forall_mem_cons]
          exact ⟨each reading isKind covers shape, sofar⟩

/-- What holds of every token that a piece of the source spells holds of all that are read. -/
theorem forall_of_readAll {Holds : Token → Prop}
    (each : ∀ {kind : Kind} {before piece after : List Char},
      source.toList = before ++ piece ++ after → piece ≠ [] → Spells piece kind →
        Holds (spanning kind before piece))
    {offset : Nat} {tokens result : List Token} {before characters : List Char}
    (shape : source.toList = before ++ characters) (reached : offset = byteLength before)
    (sofar : ∀ token ∈ tokens, Holds token)
    (success : readAll offset tokens characters = .ok result) :
    ∀ token ∈ result, Holds token :=
  forall_of_lexemes (fun reading isKind covers shape =>
    each shape (covers.ne_nil reading) (covers.spells _ isKind)) shape reached sofar success

/-- An error in reading is located at a boundary of the characters. -/
theorem start_of_readAll {offset : Nat} {tokens : List Token} {before characters : List Char}
    {failure : Located LexicalError} (shape : source.toList = before ++ characters)
    (reached : offset = byteLength before)
    (failed : readAll offset tokens characters = .error failure) :
    ∃ skipped rest, source.toList = skipped ++ rest ∧ failure.span.lo = byteLength skipped := by
  fun_induction readAll offset tokens characters generalizing before with
  | case1 => cases failed
  | case2 offset tokens first following fault reading =>
      cases failed
      obtain ⟨skipped, rest, split, distance⟩ := distance_of_lexeme reading
      refine ⟨before ++ skipped, rest, ?_, ?_⟩
      · rw [shape, split, List.append_assoc]
      · rw [byteLength_append, ← reached, ← distance]
        rfl
  | case3 offset tokens first following read reading _ stop extended =>
      rename_i inductionHypothesis
      obtain ⟨piece, covers⟩ := covers_of_lexeme reading
      rw [covers.shape, ← List.append_assoc] at shape
      refine inductionHypothesis shape ?_ failed
      rw [byteLength_append, ← reached, ← covers.size]

end Token

namespace TokenStream

variable {source : String} {stream : TokenStream}

/-- A stream that was read from a text holds the tokens that were read. -/
theorem exists_readAll_of_ofText (success : ofText source = .ok stream) :
    ∃ tokens, Token.readAll 0 [] source.toList = .ok tokens ∧
      stream = .ofTokens tokens source.utf8ByteSize := by
  unfold ofText at success
  cases reading : Token.readAll 0 [] source.toList with
  | error failure =>
      rw [reading] at success
      cases success
  | ok tokens =>
      rw [reading] at success
      cases success
      exact ⟨tokens, rfl, rfl⟩

/-- Such a stream is at its start. -/
theorem start_of_ofText (success : ofText source = .ok stream) :
    stream.consumed = [] ∧ stream.tokens = stream.remaining := by
  obtain ⟨tokens, _, rfl⟩ := exists_readAll_of_ofText success
  exact ⟨rfl, rfl⟩

/-- It ends where the text does. -/
theorem eq_ofTokens_of_ofText (success : ofText source = .ok stream) :
    stream = .ofTokens stream.remaining source.utf8ByteSize := by
  obtain ⟨tokens, _, rfl⟩ := exists_readAll_of_ofText success
  rfl

/-- What holds of every token that a piece of a text spells holds of all tokens of the text. -/
theorem forall_of_ofText {Holds : Token → Prop}
    (each : ∀ {kind : Token.Kind} {before piece after : List Char},
      source.toList = before ++ piece ++ after → piece ≠ [] → Token.Spells piece kind →
        Holds (Token.spanning kind before piece))
    (success : ofText source = .ok stream) : ∀ token ∈ stream.remaining, Holds token := by
  obtain ⟨tokens, reading, rfl⟩ := exists_readAll_of_ofText success
  have before : source.toList = [] ++ source.toList := rfl
  exact Token.forall_of_readAll each before rfl (List.forall_mem_nil _) reading

/-- All tokens of a text show terminals. -/
theorem legible_of_ofText (fits : source.utf8ByteSize ≤ Span.maxOffset)
    (success : ofText source = .ok stream) : stream.Legible source :=
  forall_of_ofText (fun shape _ => Token.isSome_terminal?_of_spells fits shape) success

theorem exists_terminals_of_ofText (fits : source.utf8ByteSize ≤ Span.maxOffset)
    (success : ofText source = .ok stream) :
    ∃ terminals, stream.terminals? source = some terminals := by
  have legible := legible_of_ofText fits success
  unfold Legible at legible
  unfold terminals?
  rw [(start_of_ofText success).2]
  generalize stream.remaining = tokens at legible
  induction tokens with
  | nil => exact ⟨[], rfl⟩
  | cons token tokens inductionHypothesis =>
      obtain ⟨first, others⟩ := List.forall_mem_cons.1 legible
      obtain ⟨terminal, shown⟩ := Option.isSome_iff_exists.1 first
      obtain ⟨terminals, rest⟩ := inductionHypothesis others
      exact ⟨terminal :: terminals, by rw [List.mapM_cons, shown, rest]; rfl⟩

/-- No name in a text is a reserved word. -/
theorem not_reserved_of_name {text : String} (success : ofText source = .ok stream) :
    ∀ token ∈ stream.remaining, token.terminal? source = some (.name text) →
      Keyword.ofText? text = none :=
  forall_of_ofText (fun shape _ => Token.not_reserved_of_name shape) success

/-- The place of a lexical error has a position. -/
theorem exists_position_of_ofText {failure : Located LexicalError}
    (failed : ofText source = .error failure) :
    ∃ position, failure.span.position? source = some position := by
  unfold ofText at failed
  cases reading : Token.readAll 0 [] source.toList with
  | ok tokens =>
      rw [reading] at failed
      cases failed
  | error found =>
      rw [reading] at failed
      cases failed
      have before : source.toList = [] ++ source.toList := rfl
      obtain ⟨skipped, rest, shape, start⟩ := Token.start_of_readAll before rfl reading
      exact ⟨_, Span.position?_of_toList shape start⟩

end TokenStream

end JackCompiler
