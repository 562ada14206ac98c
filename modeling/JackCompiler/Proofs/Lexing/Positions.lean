import JackCompiler.Diagnostic
import JackCompiler.Proofs.Lexing.Specification
import Mathlib.Data.List.Basic
import Mathlib.Data.List.Induction

/-!
# Positions and offsets

A position says which offset it is of: whoever goes down its lines, line feed by line feed, and then
along its columns, character by character, comes to that offset and has not left the line. So no two
places of a source share a position, and what stands later in the source has a later position,
whatever the sizes of the characters and the kinds of line breaks.
-/

namespace JackCompiler

namespace Position

/-! ## From positions to offsets -/

/-- Goes down a number of lines, from the offset that `text` begins at. Yields where that leads, with
the text from there on. -/
def skipLines (offset : Nat) : Nat → List Char → Option (Nat × List Char)
  | 0, text => some (offset, text)
  | _ + 1, [] => none
  | lines + 1, character :: text =>
      skipLines (offset + character.utf8Size) (if character = '\n' then lines else lines + 1) text

/-- Goes along a number of characters, all of them on one line. -/
def skipColumns (offset : Nat) : Nat → List Char → Option Nat
  | 0, _ => some offset
  | _ + 1, [] => none
  | columns + 1, character :: text =>
      if character = '\n' then none
      else skipColumns (offset + character.utf8Size) columns text

/-- The offset that a position of a text leads to. -/
def offset? (position : Position) (text : String) : Option Nat :=
  match position with
  | ⟨line + 1, column + 1⟩ =>
      (skipLines 0 line text.toList).bind fun (offset, rest) => skipColumns offset column rest
  | _ => none

/-- Whether characters are whole lines, each with its line feed. -/
def WholeLines (characters : List Char) : Prop :=
  ∀ last ∈ characters.getLast?, last = '\n'

theorem WholeLines.concat (characters : List Char) : WholeLines (characters ++ ['\n']) := by
  simp [WholeLines]

/-- Characters are whole lines and a part of the next one. -/
theorem exists_lines (characters : List Char) :
    ∃ above line, characters = above ++ line ∧ WholeLines above ∧ '\n' ∉ line := by
  induction characters using List.reverseRecOn with
  | nil => exact ⟨[], [], rfl, by simp [WholeLines], List.not_mem_nil⟩
  | append_singleton characters last inductionHypothesis =>
      by_cases feeds : last = '\n'
      · subst feeds
        exact ⟨_, [], (List.append_nil _).symm, .concat characters, List.not_mem_nil⟩
      · obtain ⟨above, line, rfl, whole, within⟩ := inductionHypothesis
        refine ⟨above, line ++ [last], List.append_assoc _ _ _, whole, ?_⟩
        simp [within, Ne.symm feeds]

/-- A position counts the line feeds in front of it. -/
theorem line_after (characters : List Char) :
    (after characters).line = characters.count '\n' + 1 := by
  induction characters using List.reverseRecOn with
  | nil => rfl
  | append_singleton characters last inductionHypothesis =>
      rw [after_concat, next]
      by_cases feeds : last = '\n'
      · simp [feeds, inductionHypothesis]
      · simp [feeds, inductionHypothesis]

/-- A position counts the characters in front of it on its line. -/
theorem column_after {above line : List Char} (whole : WholeLines above) (within : '\n' ∉ line) :
    (after (above ++ line)).column = line.length + 1 := by
  induction line using List.reverseRecOn with
  | nil =>
      rw [List.append_nil]
      rcases List.eq_nil_or_concat' above with rfl | ⟨lines, last, rfl⟩
      · rfl
      · rw [after_concat, next, if_pos (whole last (by simp))]
        rfl
  | append_singleton line last inductionHypothesis =>
      rw [List.mem_append, List.mem_singleton, not_or] at within
      rw [← List.append_assoc, after_concat, next, if_neg (Ne.symm within.2),
        List.length_append, inductionHypothesis within.1]
      rfl

/-- The position behind whole lines and a part of the next one. -/
theorem after_append {above line : List Char} (whole : WholeLines above) (within : '\n' ∉ line) :
    after (above ++ line) = ⟨above.count '\n' + 1, line.length + 1⟩ := by
  have lines := line_after (above ++ line)
  have columns := column_after whole within
  rw [List.count_append, List.count_eq_zero.2 within] at lines
  cases reached : after (above ++ line) with
  | mk line column =>
      rw [reached] at lines columns
      exact congrArg₂ Position.mk lines columns

/-- Whole lines are skipped by their number. -/
theorem skipLines_append {above : List Char} (whole : WholeLines above) (offset : Nat)
    (rest : List Char) :
    skipLines offset (above.count '\n') (above ++ rest) =
      some (offset + Token.byteLength above, rest) := by
  induction above generalizing offset with
  | nil => simp [skipLines]
  | cons character above inductionHypothesis =>
      have others : WholeLines above := by
        cases above with
        | nil => simp [WholeLines]
        | cons second others => simpa [WholeLines] using whole
      rw [Token.byteLength_cons, ← Nat.add_assoc, ← inductionHypothesis others]
      by_cases feeds : character = '\n'
      · rw [feeds, List.count_cons_self, List.cons_append, skipLines, if_pos rfl]
      · -- A character that ends no line is followed by the line feed of its line.
        obtain ⟨lines, more⟩ : ∃ lines, above.count '\n' = lines + 1 := by
          apply Nat.exists_eq_add_one.2
          apply List.count_pos_iff.2
          cases above with
          | nil => exact absurd (whole character rfl) feeds
          | cons second others =>
              have last := whole _ (List.getLast?_eq_some_getLast (List.cons_ne_nil _ _))
              rw [List.getLast_cons (List.cons_ne_nil _ _)] at last
              rw [← last]
              exact List.getLast_mem _
        rw [List.count_cons_of_ne feeds, more, List.cons_append, skipLines, if_neg feeds]

/-- Characters of one line are skipped by their number. -/
theorem skipColumns_append {line : List Char} (within : '\n' ∉ line) (offset : Nat)
    (rest : List Char) :
    skipColumns offset line.length (line ++ rest) = some (offset + Token.byteLength line) := by
  induction line generalizing offset with
  | nil => rfl
  | cons character line inductionHypothesis =>
      rw [List.mem_cons, not_or] at within
      rw [Token.byteLength_cons, ← Nat.add_assoc, ← inductionHypothesis within.2, List.length_cons,
        List.cons_append, skipColumns, if_neg (Ne.symm within.1)]

/-- What was skipped by lines are whole lines of that number. -/
theorem exists_of_skipLines {offset lines reached : Nat} {text rest : List Char}
    (skipped : skipLines offset lines text = some (reached, rest)) :
    ∃ above, text = above ++ rest ∧ WholeLines above ∧ above.count '\n' = lines ∧
      reached = offset + Token.byteLength above := by
  induction text generalizing offset lines with
  | nil =>
      cases lines with
      | zero =>
          cases skipped
          exact ⟨[], rfl, by simp [WholeLines], rfl, rfl⟩
      | succ lines => cases skipped
  | cons character text inductionHypothesis =>
      cases lines with
      | zero =>
          cases skipped
          exact ⟨[], rfl, by simp [WholeLines], rfl, rfl⟩
      | succ lines =>
          obtain ⟨above, shape, whole, counted, rfl⟩ := inductionHypothesis skipped
          refine ⟨character :: above, ?_, ?_, ?_, ?_⟩
          · rw [shape, List.cons_append]
          · cases above with
            | nil =>
                by_cases feeds : character = '\n'
                · simp [WholeLines, feeds]
                · simp [feeds] at counted
            | cons second others => simpa [WholeLines] using whole
          · by_cases feeds : character = '\n'
            · simpa [feeds] using counted
            · simpa [feeds] using counted
          · rw [Token.byteLength_cons, Nat.add_assoc]

/-- What was skipped by columns is a part of one line. -/
theorem exists_of_skipColumns {offset columns reached : Nat} {text : List Char}
    (skipped : skipColumns offset columns text = some reached) :
    ∃ line rest, text = line ++ rest ∧ '\n' ∉ line ∧ line.length = columns ∧
      reached = offset + Token.byteLength line := by
  induction columns generalizing offset text with
  | zero =>
      cases skipped
      exact ⟨[], text, rfl, List.not_mem_nil, rfl, rfl⟩
  | succ columns inductionHypothesis =>
      cases text with
      | nil => cases skipped
      | cons character text =>
          rw [skipColumns] at skipped
          by_cases feeds : character = '\n'
          · rw [if_pos feeds] at skipped
            cases skipped
          · rw [if_neg feeds] at skipped
            obtain ⟨line, rest, rfl, within, rfl, rfl⟩ := inductionHypothesis skipped
            refine ⟨character :: line, rest, rfl, ?_, rfl, ?_⟩
            · simp [within, Ne.symm feeds]
            · rw [Token.byteLength_cons, Nat.add_assoc]

/-- From the position behind some characters of a text one comes to where they end. -/
theorem offset?_after {text : String} {before rest : List Char}
    (shape : text.toList = before ++ rest) :
    (after before).offset? text = some (Token.byteLength before) := by
  obtain ⟨above, line, rfl, whole, within⟩ := exists_lines before
  rw [List.append_assoc] at shape
  rw [after_append whole within, offset?, shape, skipLines_append whole, Option.bind_some]
  show skipColumns (0 + Token.byteLength above) line.length (line ++ rest) = _
  rw [skipColumns_append within, Nat.zero_add, Token.byteLength_append]

/-- A position leads to no other place than the one behind the characters that it counts. -/
theorem exists_of_offset? {text : String} {position : Position} {offset : Nat}
    (leads : position.offset? text = some offset) :
    ∃ before rest, text.toList = before ++ rest ∧ offset = Token.byteLength before ∧
      position = after before := by
  obtain ⟨_ | line, _ | column⟩ := position
  · cases leads
  · cases leads
  · cases leads
  · obtain ⟨⟨reached, rest⟩, lines, columns⟩ := Option.bind_eq_some_iff.1 leads
    obtain ⟨above, shape, whole, rfl, rfl⟩ := exists_of_skipLines lines
    obtain ⟨part, others, rfl, within, rfl, rfl⟩ := exists_of_skipColumns columns
    refine ⟨above ++ part, others, ?_, ?_, (after_append whole within).symm⟩
    · rw [shape, List.append_assoc]
    · rw [Nat.zero_add, Token.byteLength_append]

/-! ## The order of positions -/

/-- Whether a position comes before another: on a line before, or on the same line in a column
before. -/
def Before (left right : Position) : Prop :=
  left.line < right.line ∨ left.line = right.line ∧ left.column < right.column

instance (left right : Position) : Decidable (left.Before right) :=
  inferInstanceAs (Decidable (_ ∨ _))

/-- The order of positions is transitive. -/
theorem Before.trans {left middle right : Position} (first : left.Before middle)
    (second : middle.Before right) : left.Before right := by
  unfold Before at *
  omega

/-- No position is before itself. -/
theorem Before.irrefl (position : Position) : ¬position.Before position := by
  unfold Before
  omega

/-- Every character moves the position on. -/
theorem before_next (position : Position) (character : Char) :
    position.Before (position.next character) := by
  rw [next]
  by_cases feeds : character = '\n'
  · rw [if_pos feeds]
    exact .inl (Nat.lt_succ_self _)
  · rw [if_neg feeds]
    exact .inr ⟨rfl, Nat.lt_succ_self _⟩

/-- What is behind more characters has a later position. -/
theorem before_after (characters : List Char) {more : List Char} (some : more ≠ []) :
    (after characters).Before (after (characters ++ more)) := by
  induction more using List.reverseRecOn with
  | nil => exact absurd rfl some
  | append_singleton more last inductionHypothesis =>
      rw [← List.append_assoc, after_concat]
      by_cases single : more = []
      · rw [single, List.append_nil]
        exact before_next _ _
      · exact (inductionHypothesis single).trans (before_next _ _)

/-- No two positions are before each other. -/
theorem Before.asymm {left right : Position} (before : left.Before right) :
    ¬right.Before left :=
  fun behind => irrefl left (before.trans behind)

/-- Of two places in a text the later one has the later position. -/
theorem before_iff {text left right rest others : List Char} (shape : text = left ++ rest)
    (shape' : text = right ++ others) :
    Token.byteLength left < Token.byteLength right ↔ (after left).Before (after right) := by
  rcases List.append_eq_append_iff.1 (shape.symm.trans shape') with
    ⟨more, rfl, -⟩ | ⟨more, rfl, -⟩
  · rw [Token.byteLength_append]
    by_cases same : more = []
    · simp [same, Before.irrefl]
    · exact iff_of_true (Nat.lt_add_of_pos_right (Lexing.byteLength_pos same))
        (before_after left same)
  · rw [Token.byteLength_append]
    apply iff_of_false (Nat.not_lt.2 (Nat.le_add_right _ _))
    by_cases same : more = []
    · simp [same, Before.irrefl]
    · exact (before_after right same).asymm

/-! ## Written positions -/

/-- Positions are told apart by their texts. -/
theorem text_injective {left right : Position} (same : left.text = right.text) : left = right := by
  have noColon (number : Nat) : ':' ∉ (Text.decimal number).toList := fun member =>
    absurd (Text.isDigit_of_mem_decimal member) (by decide)
  have shape (position : Position) : position.text.toList =
      (Text.decimal position.line).toList ++ ':' :: (Text.decimal position.column).toList := by
    simp [text]
  have characters := congrArg String.toList same
  rw [shape, shape, List.append_cons_inj_of_notMem (noColon _) (noColon _)] at characters
  obtain ⟨lines, -, columns⟩ := characters
  cases left
  cases right
  exact congrArg₂ mk (Text.decimal_injective (String.toList_injective lines))
    (Text.decimal_injective (String.toList_injective columns))

end Position

/-! ## Spans -/

namespace Span

variable {source : String} {span : Span}

/-- A boundary of the characters parts the text. -/
theorem exists_parts_of_isValid (boundary : String.Pos.Raw.IsValid source ⟨span.lo⟩) :
    ∃ before rest, source.toList = before ++ rest ∧ span.lo = Token.byteLength before := by
  obtain ⟨before, rest, rfl, size⟩ := String.Pos.Raw.isValid_iff_exists_append.1 boundary
  refine ⟨before.toList, rest.toList, String.toList_append, ?_⟩
  rw [Token.byteLength_eq, String.ofList_toList]
  exact congrArg String.Pos.Raw.byteIdx size

/-- A span has a position only if its start, or the end of the text if that comes first, parts the
text. -/
theorem exists_parts_of_position? {position : Position}
    (located : span.position? source = some position) :
    ∃ before rest, source.toList = before ++ rest ∧
      min span.lo source.utf8ByteSize = Token.byteLength before ∧ position = .after before := by
  obtain ⟨front, cut, rfl⟩ := Option.map_eq_some_iff.1 located
  obtain ⟨nothing, rest, shape, start, stop⟩ := Text.slice?_eq_some_iff.1 cut
  obtain rfl : nothing = "" := String.utf8ByteSize_eq_zero_iff.1 start.symm
  refine ⟨front.toList, rest.toList, ?_, ?_, rfl⟩
  · rw [shape, String.empty_append, String.toList_append]
  · rw [stop, Nat.zero_add, Token.byteLength_eq, String.ofList_toList]

end Span

/-- Of two spans that have positions the later one has the later position; starts beyond the end count
as the end. -/
theorem Span.lo_lt_iff {source : String} {left right : Span} {position position' : Position}
    (located : left.position? source = some position)
    (located' : right.position? source = some position') :
    min left.lo source.utf8ByteSize < min right.lo source.utf8ByteSize ↔
      position.Before position' := by
  obtain ⟨before, rest, shape, start, rfl⟩ := exists_parts_of_position? located
  obtain ⟨before', rest', shape', start', rfl⟩ := exists_parts_of_position? located'
  rw [start, start']
  exact Position.before_iff shape shape'

/-- Positions identify offsets. Every boundary of the characters has a position, from which one comes
back to it by going down the lines and along the columns, and an offset past the end has the position
of the end. Of two boundaries the later one has the later position, so errors in a unit that are
written with the same line and column are at the same place. -/
theorem positions_identify_offsets (source : String) :
    (∀ span : Span, String.Pos.Raw.IsValid source ⟨span.lo⟩ →
      ∃ position, span.position? source = some position ∧
        position.offset? source = some span.lo) ∧
    (∀ (span : Span) (position : Position), span.lo ≤ source.utf8ByteSize →
      position.offset? source = some span.lo → span.position? source = some position) ∧
    (∀ span : Span, source.utf8ByteSize ≤ span.lo →
      span.position? source = some (.after source.toList) ∧
        (Position.after source.toList).offset? source = some source.utf8ByteSize) ∧
    (∀ (left right : Span) (position position' : Position),
      left.position? source = some position → right.position? source = some position' →
        (min left.lo source.utf8ByteSize < min right.lo source.utf8ByteSize ↔
          position.Before position')) ∧
    ∀ (unit : String) (cause cause' : Located ErrorKind) (error error' : Error),
      Error.locate? unit source cause = some error →
      Error.locate? unit source cause' = some error' →
      error.position.text = error'.position.text →
      min cause.span.lo source.utf8ByteSize = min cause'.span.lo source.utf8ByteSize := by
  refine ⟨?_, ?_, ?_, ?_, ?_⟩
  · intro span boundary
    obtain ⟨before, rest, shape, start⟩ := Span.exists_parts_of_isValid boundary
    refine ⟨.after before, Span.position?_of_toList shape start, ?_⟩
    rw [Position.offset?_after shape, start]
  · intro span position inside leads
    obtain ⟨before, rest, shape, start, rfl⟩ := Position.exists_of_offset? leads
    exact Span.position?_of_toList shape start
  · intro span past
    have size : source.utf8ByteSize = Token.byteLength source.toList := by
      rw [Token.byteLength_eq, String.ofList_toList]
    have shape : source.toList = source.toList ++ [] := (List.append_nil _).symm
    have clipped : span.position? source =
        (Span.emptyAt source.utf8ByteSize).position? source := by
      unfold Span.position? Span.emptyAt
      rw [Nat.min_eq_right past, Nat.min_self]
    rw [clipped, Position.offset?_after shape, ← size]
    exact ⟨Span.position?_of_toList shape size, rfl⟩
  · intro left right position position'
    exact Span.lo_lt_iff
  · intro unit cause cause' error error' located located' same
    obtain ⟨position, first, rfl⟩ := Option.map_eq_some_iff.1 located
    obtain ⟨position', second, rfl⟩ := Option.map_eq_some_iff.1 located'
    obtain rfl : position = position' := Position.text_injective same
    -- No position is before itself, so neither offset is smaller.
    have notBefore := mt (Span.lo_lt_iff first second).1 (Position.Before.irrefl position)
    have notBehind := mt (Span.lo_lt_iff second first).1 (Position.Before.irrefl position)
    exact Nat.le_antisymm (Nat.not_lt.1 notBehind) (Nat.not_lt.1 notBefore)

/-- A text with characters of two and three bytes and a line break of two characters: behind five of
its six characters one is at the byte with number 8, and that is the third column of line 2. -/
theorem positions_identify_offsets_of_mixed :
    ∃ (source : String) (position : Position) (inside beyond : Located ErrorKind),
      String.Pos.Raw.IsValid source ⟨8⟩ ∧ (Span.emptyAt 8).position? source = some position ∧
      position = ⟨2, 3⟩ ∧ position.offset? source = some 8 ∧ source.utf8ByteSize = 9 ∧
      (Span.emptyAt 12).position? source = some ⟨2, 4⟩ ∧ position.Before ⟨2, 4⟩ ∧
      (Error.locate? "A" source inside).isSome ∧ (Error.locate? "A" source beyond).isSome ∧
      ∀ error error', Error.locate? "A" source inside = some error →
        Error.locate? "A" source beyond = some error' →
        error.position.text ≠ error'.position.text := by
  let source := "é\r\na語;"
  let kind : ErrorKind := .lexical (.unexpectedCharacter '語')
  obtain ⟨exact, only, past, order, apart⟩ := positions_identify_offsets source
  have boundary : String.Pos.Raw.IsValid source ⟨8⟩ := by decide +kernel
  have size : source.utf8ByteSize = 9 := by decide +kernel
  obtain ⟨position, located, leads⟩ := exact (.emptyAt 8) boundary
  have isThird : position = ⟨2, 3⟩ := by
    have computed : (⟨2, 3⟩ : Position).offset? source = some 8 := by decide +kernel
    have same := only (.emptyAt 8) ⟨2, 3⟩ (by decide +kernel) computed
    exact Option.some.inj (located.symm.trans same)
  have ending : (Span.emptyAt 12).position? source = some ⟨2, 4⟩ :=
    (past (.emptyAt 12) (by decide +kernel)).1.trans (by decide +kernel)
  have before : position.Before ⟨2, 4⟩ := (order _ _ _ _ located ending).1 (by decide +kernel)
  refine ⟨source, position, (Span.emptyAt 8).locate kind, (Span.emptyAt 12).locate kind, boundary,
    located, isThird, leads, size, ending, before, by decide +kernel, by decide +kernel, ?_⟩
  intro error error' first second same
  exact absurd (apart _ _ _ _ _ first second same) (by decide +kernel)

end JackCompiler
