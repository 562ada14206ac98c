import JackCompiler.Proofs.Comparison.Layout
import JackCompiler.Proofs.Lexing.Specification

/-!
# Breakdowns

Nothing that a source text can hold makes a compilation break off; only labels can run out. For the
pass over the tokens, this is the comparison of a text to itself. Besides, the reader of tokens cuts
the source at its characters wherever it looks at a piece of it, and what recognisers take for
granted of a token or a variable holds wherever they are entered.
-/

namespace JackCompiler

/-! ## The reader of tokens -/

namespace Token

/-- The places that the reader of a source comes to, with what is still to be read there. -/
inductive Arrives (source : String) : Nat → List Char → Prop
  | start : Arrives source 0 source.toList
  | next {offset : Nat} {first : Char} {following : List Char} {read : Lexeme}
      (arrives : Arrives source offset (first :: following))
      (success : lexeme first following = .ok read) :
      Arrives source (offset + read.size) read.rest

/-- The piece at the start of a text that its reader cuts out: a name or keyword to look it up, a
number to compute its value, a string constant to measure it. -/
inductive Cuts : List Char → List Char → Prop
  | word {first : Char} (following : List Char) (starts : startsName first) :
      Cuts (first :: following) (first :: following.takeWhile continuesName)
  | number {first : Char} (following : List Char) (digit : first.isDigit) :
      Cuts (first :: following) (first :: following.takeWhile Char.isDigit)
  | string {inside rest : List Char} {size : Nat}
      (closed : stringEnd 1 (inside ++ rest) = .closed size rest) :
      Cuts ('"' :: (inside ++ rest)) ('"' :: inside)

variable {source : String} {offset : Nat} {text piece : List Char}

/-- The reader does come to these places. -/
theorem Arrives.exists_readAll (arrives : Arrives source offset text) :
    ∃ tokens, readAll 0 [] source.toList = readAll offset tokens text := by
  induction arrives with
  | start => exact ⟨[], rfl⟩
  | next _ success inductionHypothesis =>
      obtain ⟨tokens, same⟩ := inductionHypothesis
      exact ⟨_, same.trans (Lexing.readAll_of_lexeme success _ tokens)⟩

/-- They are at boundaries of the characters. -/
theorem Arrives.exists_before (arrives : Arrives source offset text) :
    ∃ before, source.toList = before ++ text ∧ offset = byteLength before := by
  induction arrives with
  | start => exact ⟨[], rfl, rfl⟩
  | next _ success inductionHypothesis =>
      obtain ⟨before, shape, rfl⟩ := inductionHypothesis
      obtain ⟨piece, covers⟩ := covers_of_lexeme success
      refine ⟨before ++ piece, ?_, ?_⟩
      · rw [shape, covers.shape, List.append_assoc]
      · rw [byteLength_append, covers.size]

/-- What is cut out consists of ASCII characters at the start of the text. -/
theorem Cuts.ascii (cuts : Cuts text piece) :
    (∃ rest, text = piece ++ rest) ∧ (∀ character ∈ piece, character.toNat < 128) ∧
      (piece.head? = some '"' → 2 ≤ piece.length) := by
  cases cuts with
  | @word first following starts =>
      refine ⟨⟨following.dropWhile continuesName, by simp⟩, fun character member =>
        toNat_of_continuesName (forall_mem_takeWhile following
          (continuesName_of_startsName starts) character member), ?_⟩
      rintro isQuote
      cases isQuote
      exact absurd starts (by decide)
  | @number first following digit =>
      refine ⟨⟨following.dropWhile Char.isDigit, by simp⟩, fun character member =>
        toNat_of_isDigit (forall_mem_takeWhile following digit character member), ?_⟩
      rintro isQuote
      cases isQuote
      exact absurd digit (by decide)
  | @string inside rest size closed =>
      obtain ⟨contents, shape, _, all⟩ := shape_of_stringEnd closed
      rw [List.append_cons, List.append_cancel_right_eq] at shape
      subst shape
      exact ⟨⟨rest, rfl⟩, toNat_of_quoted all, fun _ => by simp⟩

/-- What the reader cuts out is there, up to the longest span, and both quotes of a string constant
are in it. -/
theorem text?_of_cuts (arrives : Arrives source offset text) (cuts : Cuts text piece) :
    ∃ cut, (Span.ofBounds offset (offset + byteLength piece)).text? source = some cut ∧
      cut = String.ofList (piece.take Span.maxLength) ∧
      (piece.head? = some '"' → 2 ≤ cut.utf8ByteSize) := by
  obtain ⟨before, shape, rfl⟩ := arrives.exists_before
  obtain ⟨⟨rest, rfl⟩, ascii, quoted⟩ := cuts.ascii
  rw [← List.append_assoc] at shape
  refine ⟨_, text?_of_ascii .string shape ascii, rfl, fun isQuote => ?_⟩
  have long := quoted isQuote
  rw [← byteLength_eq, byteLength_eq_length fun character member =>
    ascii character (List.mem_of_mem_take member), List.length_take, Span.maxLength]
  omega

end Token

/-! ## What recognisers take for granted -/

/-- No name stands for a constant. -/
theorem Scope.segment_ne_constant {scope : Scope} {name : String} {found : Variable}
    (resolved : scope.resolve? name = some found) : found.segment ≠ .constant := by
  unfold Scope.resolve? at resolved
  split at resolved
  · next symbol _ =>
      cases resolved
      show StorageClass.segment symbol.storage ≠ _
      cases symbol.storage <;> exact nofun
  · obtain ⟨symbol, _, rfl⟩ := Option.map_eq_some_iff.1 resolved
    show StorageClass.segment symbol.storage ≠ _
    cases symbol.storage <;> exact nofun

namespace Pass

variable {σ α β : Type}

/-- A part of a pass that breaks off unless a condition holds. -/
def asserting (breakdown : Breakdown) (condition : Prop) [Decidable condition]
    (part : Pass σ α) : Pass σ α :=
  if condition then part else breakOff breakdown

/-- `name`, asserting that the text taken as a name is that of an identifier. -/
def nameAsserting (breakdown : Breakdown) : Pass σ String := do
  let token ← expect .identifier
  asserting breakdown (token.kind = .identifier) (textOf token)

/-- `letStatement`, asserting that its target is an identifier and that nothing is popped into the
segment of constants. Wherever else code pops, the segment stands in the recogniser itself. -/
def letStatementAsserting (breakdown : Breakdown) : Pass σ Code := do
  let token ← expect .identifier
  let target ← asserting breakdown (token.kind = .identifier) (resolve token)
  let code ←
    if ← take (.punctuation .leftBracket) then elementAssignment target
    else asserting breakdown (target.segment ≠ .constant) (variableAssignment target)
  expectMark .semicolon
  pure code

/-- `term`, asserting that what is taken as a string constant or a name is one. -/
def termAsserting (breakdown : Breakdown) (depth : Nat) : Pass σ Code := do
  let token ← advance
  match KeywordConstant.ofKind? token.kind with
  | some constant => pure (Code.constant constant)
  | none =>
      match UnaryOperator.ofKind? token.kind with
      | some operator => do
          let operand ← term depth
          pure (operand.unary operator)
      | none =>
          match token.kind with
          | .integer value => pure (Code.ofList [.push .constant value])
          | .string => asserting breakdown (token.kind = .string) (stringTerm token)
          | .punctuation .leftParen => do
              let code ← expressionOf (term depth)
              expectMark .rightParen
              pure code
          | .identifier =>
              asserting breakdown (token.kind = .identifier)
                (nameTerm (expressionOf (term depth)) token)
          | actual => reject token.span (.grammatical (.unexpectedInExpression actual))

theorem asserting_of_holds {breakdown : Breakdown} {condition : Prop} [Decidable condition]
    (holds : condition) (part : Pass σ α) : asserting breakdown condition part = part :=
  if_pos holds

/-- What follows a part is only run with what that part yields. -/
theorem bind_congr_of_done {part : Pass σ α} {next next' : α → Pass σ β}
    (same : ∀ {context before value after}, part.run context before = .done value after →
      next value = next' value) : part >>= next = part >>= next' := by
  ext context before
  rw [run_bind, run_bind]
  cases outcome : part.run context before with
  | done value after => exact congrArg (run · context after) (same outcome)
  | halted reason after => rfl

/-- A name token is resolved to no constant. -/
theorem segment_of_resolve {token : Token} {target : Variable} {context : PassContext}
    {before after : PassState σ}
    (resolved : (resolve token).run context before = .done target after) :
    target.segment ≠ .constant := by
  obtain ⟨name, middle, _, found⟩ := run_bind_eq_done_iff.1 resolved
  rw [run_bind_of_done (run_lookup? name)] at found
  cases isPlace : middle.environment.place? name with
  | none =>
      rw [isPlace] at found
      cases found
  | some place =>
      rw [isPlace] at found
      obtain ⟨rfl, _⟩ := run_pure_eq_done_iff.1 found
      exact Scope.segment_ne_constant isPlace

theorem name_eq_asserting (breakdown : Breakdown) :
    (name : Pass σ String) = nameAsserting breakdown :=
  bind_congr_of_done fun read =>
    (asserting_of_holds (expect_eq_done_iff.1 read).2 _).symm

theorem letStatement_eq_asserting (breakdown : Breakdown) :
    (letStatement : Pass σ Code) = letStatementAsserting breakdown := by
  refine bind_congr_of_done fun read => ?_
  rw [asserting_of_holds (expect_eq_done_iff.1 read).2]
  refine bind_congr_of_done fun resolved => ?_
  rw [asserting_of_holds (segment_of_resolve resolved)]

theorem term_eq_asserting (breakdown : Breakdown) (depth : Nat) :
    (term (depth + 1) : Pass σ Code) = termAsserting breakdown depth := by
  refine bind_congr_of_done fun {_ _ token _} _ => ?_
  cases KeywordConstant.ofKind? token.kind with
  | some constant => rfl
  | none =>
      cases UnaryOperator.ofKind? token.kind with
      | some operator => rfl
      | none =>
          cases kind : token.kind with
          | string => exact (asserting_of_holds rfl _).symm
          | identifier => exact (asserting_of_holds rfl _).symm
          | punctuation mark => cases mark <;> rfl
          | _ => rfl

end Pass

/-! ## Compilations -/

section Compilers

variable {σ : Type} [LabelSource σ] {source : String}

/-- A compilation breaks off only for want of labels. -/
theorem breakdown_of_compile {labels : σ} {unit : String} {breakdown : Breakdown}
    (fits : source.utf8ByteSize ≤ Span.maxOffset)
    (broken : (compile labels unit source).1 = .error (.broken breakdown)) :
    breakdown = .labelsExhausted := by
  cases lexed : TokenStream.ofText source with
  | error failure =>
      obtain ⟨position, located⟩ := TokenStream.exists_position_of_ofText lexed
      have turned : compile labels unit source =
          (.error (.error ⟨unit, position, .lexical failure.value⟩), labels) := by
        simp [compile, lexed, Failure.ofCause, Error.locate?, Span.locate, located]
      rw [turned] at broken
      cases broken
  | ok stream =>
      have alike : List.Forall₂ (SameToken source source) stream.remaining stream.remaining :=
        List.forall₂_same.2 fun token _ => .refl source token
      have verdict := (sameVerdict_of_sameTokens labels unit fits fits lexed lexed alike).2
      rw [broken] at verdict
      cases verdict
      rfl

/-- No compilation breaks off. It does so only for want of labels, when the source of labels holds
fewer than the text wants. The reader of tokens cuts the source at its characters wherever it looks
at a piece, the quotes of string constants included; all tokens that were read are sound, and errors
in reading have a position. No recogniser would notice an assertion that what it takes for a name or
a string constant is one, or that nothing is popped into the segment of constants. -/
theorem compile_never_breaks (labels : σ) (unit : String)
    (fits : source.utf8ByteSize ≤ Span.maxOffset) :
    (∀ breakdown, (compile labels unit source).1 = .error (.broken breakdown) →
      breakdown = .labelsExhausted ∧ LabelSource.drawn? labels (labelsWanted source) = none) ∧
    (∀ offset text piece, Token.Arrives source offset text → Token.Cuts text piece →
      (∃ tokens, Token.readAll 0 [] source.toList = Token.readAll offset tokens text) ∧
      ∃ cut, (Span.ofBounds offset (offset + Token.byteLength piece)).text? source = some cut ∧
        cut = String.ofList (piece.take Span.maxLength) ∧
        (piece.head? = some '"' → 2 ≤ cut.utf8ByteSize)) ∧
    (∀ stream, TokenStream.ofText source = .ok stream →
      ∀ token ∈ stream.remaining, token.Sound source) ∧
    (∀ failure, TokenStream.ofText source = .error failure →
      ∃ position, failure.span.position? source = some position) ∧
    ∀ breakdown, (Pass.name : Pass σ String) = Pass.nameAsserting breakdown ∧
      (Pass.letStatement : Pass σ Code) = Pass.letStatementAsserting breakdown ∧
      ∀ depth, (Pass.term (depth + 1) : Pass σ Code) = Pass.termAsserting breakdown depth := by
  refine ⟨?_, ?_, ?_, ?_, ?_⟩
  · intro breakdown broken
    have wanted := breakdown_of_compile fits broken
    refine ⟨wanted, ?_⟩
    rcases compile_cases labels unit source with ⟨_, other, _⟩ | ⟨short, _⟩
    · rw [broken, wanted] at other
      exact absurd rfl other
    · exact short
  · intro offset text piece arrives cuts
    exact ⟨arrives.exists_readAll, Token.text?_of_cuts arrives cuts⟩
  · exact fun stream => TokenStream.sound_of_ofText fits
  · exact fun failure => TokenStream.exists_position_of_ofText
  · intro breakdown
    exact ⟨Pass.name_eq_asserting breakdown, Pass.letStatement_eq_asserting breakdown,
      Pass.term_eq_asserting breakdown⟩

end Compilers

/-- A loop that is not closed draws its labels, and there are enough of them. -/
theorem compile_never_breaks_of_loop :
    ∃ source : String, source.utf8ByteSize ≤ Span.maxOffset ∧ labelsWanted source = 2 ∧
      ∀ breakdown, (compile (⟨0⟩ : LabelCounter) "A" source).1 ≠ .error (.broken breakdown) := by
  have fits : "class A\x7bfunction int f()\x7bwhile(1)\x7b".utf8ByteSize ≤ Span.maxOffset := by
    decide +kernel
  have wanted : labelsWanted "class A\x7bfunction int f()\x7bwhile(1)\x7b" = 2 := by decide +kernel
  refine ⟨_, fits, wanted, fun breakdown broken => ?_⟩
  have short := ((compile_never_breaks (⟨0⟩ : LabelCounter) "A" fits).1 breakdown broken).2
  rw [wanted] at short
  exact absurd short (by decide)

end JackCompiler
