import JackCompiler.Proofs.Lexing.Specification
import Mathlib.Data.List.Forall2
import Mathlib.Algebra.Group.Nat.Defs

/-!
# Rendered tokens

Tokens can be written down one after the other, with separators of any kind between them: the text
is then read as these tokens again. A separator starts with white space, so that no token runs into
what stands behind it, and goes on with white space and comments in any order.
-/

namespace JackCompiler

namespace Lexing

/-! ## Separators -/

/-- White space, closed block comments and line comments with their line feeds, in any order. -/
inductive Gap : List Char → Prop
  | nil : Gap []
  | blank {character : Char} {others : List Char} (isBlank : Blank character)
      (more : Gap others) : Gap (character :: others)
  | lineComment {body others : List Char} (inside : '\n' ∉ body) (more : Gap others) :
      Gap ('/' :: '/' :: (body ++ '\n' :: others))
  | blockComment {body others : List Char} (inside : ¬['*', '/'] <:+: body)
      (more : Gap others) : Gap ('/' :: '*' :: (body ++ '*' :: '/' :: others))

/-- A separator of tokens is a gap that starts with white space. -/
def Separates (text : List Char) : Prop :=
  ∃ first others, text = first :: others ∧ Blank first ∧ Gap others

/-- Whether segments are white space and comments only. -/
def Silent (segments : List Segment) : Prop := ∀ segment ∈ segments, segment.kind? = none

/-- A segment without a token goes in front of others without tokens. -/
theorem Silent.cons {segment : Segment} {segments : List Segment} (silent : Silent segments)
    (isNone : segment.kind? = none) : Silent (segment :: segments) :=
  List.forall_mem_cons.2 ⟨isNone, silent⟩

theorem Separates.gap {text : List Char} (separates : Separates text) : Gap text := by
  obtain ⟨first, others, rfl, isBlank, more⟩ := separates
  exact .blank isBlank more

/-- A gap is read as white space and comments, whatever follows. -/
theorem Gap.reading {gap : List Char} (isGap : Gap gap) (rest : List Char) :
    ∃ segments, Silent segments ∧ Reading segments (gap ++ rest) rest := by
  induction isGap with
  | nil => exact ⟨[], List.forall_mem_nil _, .nil rest⟩
  | @blank character others isBlank _ inductionHypothesis =>
      obtain ⟨segments, silent, reading⟩ := inductionHypothesis
      have fits : Segment.Fits ⟨none, [character]⟩ (others ++ rest) := Trivia.blank isBlank
      exact ⟨_ :: segments, silent.cons rfl, .cons fits reading⟩
  | @lineComment body others inside _ inductionHypothesis =>
      obtain ⟨segments, silent, reading⟩ := inductionHypothesis
      have comment : Segment.Fits ⟨none, '/' :: '/' :: body⟩ ('\n' :: (others ++ rest)) :=
        Trivia.lineComment inside fun next isNext => (Option.some.inj isNext).symm
      have feed : Segment.Fits ⟨none, ['\n']⟩ (others ++ rest) := Trivia.blank (by simp [Blank])
      have both := Reading.cons comment (.cons feed reading)
      simp only [List.cons_append, List.append_assoc] at both ⊢
      exact ⟨_, (silent.cons rfl).cons rfl, both⟩
  | @blockComment body others inside _ inductionHypothesis =>
      obtain ⟨segments, silent, reading⟩ := inductionHypothesis
      have comment : Segment.Fits ⟨none, '/' :: '*' :: (body ++ ['*', '/'])⟩ (others ++ rest) :=
        Trivia.blockComment inside
      have both := Reading.cons comment reading
      simp only [List.cons_append, List.append_assoc, List.nil_append] at both ⊢
      exact ⟨_, silent.cons rfl, both⟩

/-- What is silent has no long tokens. -/
theorem Silent.short {segments : List Segment} (silent : Silent segments) : Short segments := by
  intro segment member isToken
  rw [silent segment member] at isToken
  cases isToken

/-- What is silent has no tokens. -/
theorem tokens_of_silent {segments : List Segment} (silent : Silent segments) (offset : Nat) :
    tokens offset segments = [] := by
  induction segments generalizing offset with
  | nil => rfl
  | cons segment segments inductionHypothesis =>
      obtain ⟨kind?, piece⟩ := segment
      obtain ⟨isNone, others⟩ := List.forall_mem_cons.1 silent
      cases isNone
      exact inductionHypothesis others _

/-- The tokens of more segments come behind, further on by the bytes of the segments before. -/
theorem tokens_append (offset : Nat) (segments more : List Segment) :
    tokens offset (segments ++ more) =
      tokens offset segments ++ tokens (offset + Token.byteLength (characters segments)) more := by
  induction segments generalizing offset with
  | nil => rfl
  | cons segment segments inductionHypothesis =>
      obtain ⟨kind?, piece⟩ := segment
      cases kind? <;>
        simp [tokens, characters, inductionHypothesis, Token.byteLength_append, Nat.add_assoc]

/-- A token ends in front of white space. -/
theorem ends_of_blank {first : Char} (others : List Char) (isBlank : Blank first)
    (kind : Token.Kind) : Ends (first :: others) kind := by
  have notPart : ∀ next ∈ (first :: others).head?, ¬NamePart next := by
    rintro next isNext part
    cases isNext
    exact (ordinary_of_namePart part).1 isBlank
  have notMark : ∀ next ∈ (first :: others).head?, next ≠ '/' ∧ next ≠ '*' := by
    rintro next isNext
    cases isNext
    constructor <;>
      · rintro rfl
        exact absurd isBlank (by simp [Blank])
  cases kind with
  | keyword word => exact notPart
  | identifier => exact notPart
  | integer value => exact fun next isNext digit => notPart next isNext (.inr digit)
  | string => trivial
  | punctuation sign =>
      cases sign with
      | slash => exact notMark
      | _ => trivial

/-! ## Rendering -/

/-- A token to be written: its kind, its text, and what separates it from the next one. -/
structure Item where
  kind : Token.Kind
  text : List Char
  separator : List Char

/-- Whether the text of an item is one of its kind, and of fewer bytes than a span can count. -/
structure Item.Valid (item : Item) : Prop where
  written : Written item.text item.kind
  short : Token.byteLength item.text < 2 ^ 32
  separates : Separates item.separator

/-- The characters of items one after the other. -/
def rendered (items : List Item) : List Char :=
  items.flatMap fun item => item.text ++ item.separator

/-- The text of items, after what separates the first one from the start of the text. -/
def render (leading : List Char) (items : List Item) : String :=
  String.ofList (leading ++ rendered items)

/-- A token of a source carries an item: it has its kind and cuts its text out of the source, and
if it is a string constant also what is between the quotes. -/
structure Carries (source : String) (token : Token) (item : Item) : Prop where
  kind : token.kind = item.kind
  text : token.text? source = some (String.ofList item.text)
  contents : source.utf8ByteSize ≤ Span.maxOffset → item.kind = .string →
    ∀ contents, item.text = '"' :: (contents ++ ['"']) →
      token.contents? source = some (String.ofList contents)

section Rendered

variable {source : String} {leading before : List Char}

/-- A valid item is carried by the token at its place. -/
theorem carries_of_valid {item : Item} {after : List Char} (valid : item.Valid)
    (shape : source.toList = before ++ item.text ++ after) (ends : Ends after item.kind) :
    Carries source (Token.spanning item.kind before item.text) item := by
  obtain ⟨kind, text, separator⟩ := item
  have short : Token.byteLength text ≤ Span.maxLength := Nat.le_of_lt_succ valid.short
  have text? := Text.slice?_of_toList shape rfl
    (Span.hi_ofBounds (Nat.le_add_right _ _) (by rwa [Nat.add_sub_cancel_left]))
  refine ⟨rfl, text?, ?_⟩
  rintro fits isString contents quoted
  cases isString
  cases quoted
  obtain ⟨_, same, inside, bounded⟩ := valid.written
  obtain ⟨rfl, _⟩ := List.append_inj' (List.cons.inj same).2 rfl
  exact Token.contents?_of_quoted fits shape bounded fun character member =>
    Token.toNat_of_isStringCharacter (inside character member)

/-- Items are read as tokens that carry them. The induction is on the items, with the characters
written before them at hand. -/
theorem exists_reading_of_items {items : List Item} (valid : ∀ item ∈ items, item.Valid)
    (shape : source.toList = before ++ rendered items) :
    ∃ segments, Reading segments (rendered items) [] ∧ Short segments ∧
      List.Forall₂ (Carries source) (tokens (Token.byteLength before) segments) items := by
  induction items generalizing before with
  | nil => exact ⟨[], .nil [], List.forall_mem_nil _, .nil⟩
  | cons item items inductionHypothesis =>
      obtain ⟨isValid, valid⟩ := List.forall_mem_cons.1 valid
      have split : rendered (item :: items) = item.text ++ (item.separator ++ rendered items) := by
        simp [rendered]
      rw [split] at shape
      obtain ⟨segments, reading, short, carries⟩ :=
        @inductionHypothesis (before ++ item.text ++ item.separator) valid (by simp [shape])
      obtain ⟨silent, isSilent, gap⟩ := isValid.separates.gap.reading (rendered items)
      have ends : Ends (item.separator ++ rendered items) item.kind := by
        obtain ⟨first, others, isSeparator, isBlank, _⟩ := isValid.separates
        rw [isSeparator]
        exact ends_of_blank _ isBlank item.kind
      refine ⟨⟨some item.kind, item.text⟩ :: (silent ++ segments), ?_, ?_, ?_⟩
      · rw [split]
        exact .cons ⟨isValid.written, ends⟩ (gap.trans reading)
      · have length := Nat.lt_of_le_of_lt (length_le_byteLength item.text) isValid.short
        exact List.forall_mem_cons.2 ⟨fun _ => Nat.le_of_lt_succ length,
          List.forall_mem_append.2 ⟨isSilent.short, short⟩⟩
      · refine .cons (carries_of_valid isValid (by simpa using shape) ends) ?_
        have same : characters silent = item.separator :=
          (List.append_inj_left' gap.text_eq rfl).symm
        rw [tokens_append, tokens_of_silent isSilent, same, List.nil_append]
        simpa only [Token.byteLength_append] using carries

/-- Rendered items are read as tokens that carry them, one for each. -/
theorem ofText_render {items : List Item} (leads : Gap leading)
    (valid : ∀ item ∈ items, item.Valid) :
    ∃ stream, TokenStream.ofText (render leading items) = .ok stream ∧ stream.consumed = [] ∧
      List.Forall₂ (Carries (render leading items)) stream.remaining items := by
  have shape : (render leading items).toList = leading ++ rendered items := String.toList_ofList
  obtain ⟨silent, isSilent, gap⟩ := leads.reading (rendered items)
  obtain ⟨segments, reading, short, carries⟩ := exists_reading_of_items valid shape
  have whole := gap.trans reading
  rw [← shape] at whole
  have success := ofText_of_reading whole (List.forall_mem_append.2 ⟨isSilent.short, short⟩)
  refine ⟨_, success, rfl, ?_⟩
  have same : characters silent = leading := (List.append_inj_left' gap.text_eq rfl).symm
  show List.Forall₂ _ (tokens 0 _) _
  rw [tokens_append, tokens_of_silent isSilent, same, List.nil_append, Nat.zero_add]
  exact carries

end Rendered

/-- A string constant with comment marks in it, behind a comment with a quote in it. -/
theorem ofText_render_of_marks :
    ∃ leading items, Gap leading ∧ (∀ item ∈ items, Item.Valid item) ∧
      render leading items = "/*\"*/do\t\"//\" //é\n" ∧
      ∃ stream, TokenStream.ofText (render leading items) = .ok stream ∧
        List.Forall₂ (Carries (render leading items)) stream.remaining items := by
  have leads : Gap "/*\"*/".toList := @Gap.blockComment ['"'] _ (by decide) .nil
  have word : Item.Valid ⟨.keyword .do, "do".toList, ['\t']⟩ :=
    ⟨rfl, by decide, '\t', [], rfl, by simp [Blank], .nil⟩
  have constant : Item.Valid ⟨.string, "\"//\"".toList, " //é\n".toList⟩ := by
    refine ⟨⟨['/', '/'], rfl, ?_, by decide⟩, by decide, ' ', _, rfl, by simp [Blank],
      @Gap.lineComment ['é'] _ (by decide) .nil⟩
    simp [Token.isStringCharacter]
  have valid := List.forall_mem_cons.2 ⟨word, List.forall_mem_singleton.2 constant⟩
  obtain ⟨stream, success, _, carries⟩ := ofText_render leads valid
  exact ⟨_, _, leads, valid, by decide +kernel, stream, success, carries⟩

end Lexing

end JackCompiler
