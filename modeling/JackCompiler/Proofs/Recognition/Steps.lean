import JackCompiler.Proofs.Generation.Generate

/-!
# Steps of the pass and terminals

What the steps of a pass have done when they are done, in terms of the terminals they moved over,
and conversely when a move makes a step be done. Later proofs about recognisers go through these
laws and never look at tokens.
-/

namespace JackCompiler

open Grammar

namespace PassState

variable {σ : Type} {source : String} {before middle after : PassState σ}

/-- The kind of the token that comes next. -/
def nextKind? (state : PassState σ) : Option Token.Kind := state.stream.nextKind?

/-- What names stand for at this point of a pass. -/
def environment (state : PassState σ) : Environment := ⟨state.className, state.scope.resolve?⟩

/-- How many tokens are left. -/
def left (state : PassState σ) : Nat := state.stream.remaining.length

/-- A pass that can go on to read terminals in an environment. -/
structure Ready (source : String) (environment : Environment) (state : PassState σ) : Prop where
  legible : state.stream.Legible source
  environment : state.environment = environment

/-- Moving over terminals, with everything but the stream as it was. -/
structure Reads (source : String) (before : PassState σ) (terminals : List Terminal)
    (after : PassState σ) : Prop where
  stream : before.stream.Reads source terminals after.stream
  others : after = { before with stream := after.stream }

namespace Reads

theorem nil (state : PassState σ) : state.Reads source [] state := ⟨.nil _, rfl⟩

/-- Two moves one after another read their terminals one after another. -/
theorem trans {first second : List Terminal} (one : before.Reads source first middle)
    (two : middle.Reads source second after) : before.Reads source (first ++ second) after := by
  refine ⟨one.stream.trans two.stream, ?_⟩
  rw [two.others, one.others]

/-- A move over terminals passes by the state between any two parts of them. -/
theorem split {first second : List Terminal}
    (whole : before.Reads source (first ++ second) after) :
    ∃ middle, before.Reads source first middle ∧ middle.Reads source second after := by
  obtain ⟨stream, one, two⟩ := whole.stream.split
  exact ⟨{ before with stream }, ⟨one, rfl⟩, ⟨two, whole.others⟩⟩

/-- A move over one terminal and then others. -/
theorem head {terminal : Terminal} {terminals : List Terminal}
    (whole : before.Reads source (terminal :: terminals) after) :
    ∃ middle, before.Reads source [terminal] middle ∧ middle.Reads source terminals after := by
  rw [← List.singleton_append] at whole
  exact whole.split

/-- A move over no terminals stays where it is. -/
theorem eq_of_nil (move : before.Reads source [] after) : after = before := by
  obtain ⟨stream, others⟩ := move
  generalize after.stream = ending at stream others
  cases stream
  exact others

/-- What is left behind a move can be read if all could. -/
theorem legible {terminals : List Terminal} (move : before.Reads source terminals after)
    (all : before.stream.Legible source) : after.stream.Legible source :=
  move.stream.legible all

/-- A move reads as many tokens as terminals. -/
theorem left {terminals : List Terminal} (move : before.Reads source terminals after) :
    before.left = terminals.length + after.left :=
  move.stream.length_remaining

/-- A move reads tokens and does nothing else. -/
theorem environment {terminals : List Terminal} (move : before.Reads source terminals after) :
    after.environment = before.environment := by
  rw [move.others]
  rfl

/-- A move does not change what names stand for, and leaves a legible rest. -/
theorem ready {terminals : List Terminal} {environment : Environment}
    (move : before.Reads source terminals after) (start : before.Ready source environment) :
    after.Ready source environment :=
  ⟨move.legible start.legible, move.environment.trans start.environment⟩

/-- A move begins with the kind of its first terminal. -/
theorem nextKind? {terminal : Terminal} {terminals : List Terminal}
    (move : before.Reads source (terminal :: terminals) after) :
    before.nextKind? = some terminal.kind :=
  move.stream.nextKind?

end Reads

end PassState

namespace PassResult

variable {σ α : Type}

/-- What was yielded, unless the pass stopped. -/
def value? : PassResult σ α → Option α
  | done value _ => some value
  | halted _ _ => none

/-- A result that has a value is done in some state. -/
theorem exists_done {result : PassResult σ α} {value : α} (yields : result.value? = some value) :
    ∃ state, result = .done value state := by
  cases result with
  | done given state =>
      cases yields
      exact ⟨state, rfl⟩
  | halted reason state => cases yields

end PassResult

namespace Pass

variable {σ α β : Type} {context : PassContext} {before after : PassState σ}

/-- A sequence of two parts is done when both are. -/
theorem run_bind_eq_done_iff {part : Pass σ α} {next : α → Pass σ β} {value : β} :
    (part >>= next).run context before = .done value after ↔
      ∃ first middle, part.run context before = .done first middle ∧
        (next first).run context middle = .done value after := by
  rw [run_bind]
  cases outcome : part.run context before with
  | done first middle =>
      constructor
      · intro finished
        exact ⟨first, middle, rfl, finished⟩
      · rintro ⟨_, _, same, finished⟩
        cases same
        exact finished
  | halted reason state =>
      constructor
      · intro finished
        cases finished
      · rintro ⟨_, _, same, _⟩
        cases same

/-- A value alone is done at once, in the state it was reached in. -/
theorem run_pure_eq_done_iff {value result : α} :
    (pure value : Pass σ α).run context before = .done result after ↔
      result = value ∧ after = before := by
  rw [run_pure]
  constructor
  · rintro ⟨⟩
    exact ⟨rfl, rfl⟩
  · rintro ⟨rfl, rfl⟩
    rfl

/-- A part that rejects ends there, at the place it is given. -/
theorem run_reject (span : Span) (kind : ErrorKind) :
    (reject span kind : Pass σ α).run context before =
      .halted (.rejected (span.locate kind)) before := rfl

/-! ## Reading one token -/

/-- The next token is read where there is one, and nothing else of the state changes. -/
theorem advance_eq_done_iff {token : Token} :
    advance.run context before = .done token after ↔
      before.stream.next? = some (token, after.stream) ∧
        after = { before with stream := after.stream } := by
  unfold advance
  rw [run_bind_of_done (run_state context before)]
  cases next : before.stream.next? with
  | none => simp [run_reject]
  | some read =>
      obtain ⟨found, stream⟩ := read
      show PassResult.done found { before with stream } = .done token after ↔ _
      constructor
      · rintro ⟨⟩
        exact ⟨rfl, rfl⟩
      · rintro ⟨same, others⟩
        cases same
        rw [← others]

/-- A token that was read in a legible stream shows a terminal. -/
theorem reads_of_advance {token : Token} (legible : before.stream.Legible context.source)
    (finished : advance.run context before = .done token after) :
    ∃ terminal, token.terminal? context.source = some terminal ∧
      before.Reads context.source [terminal] after := by
  obtain ⟨next, others⟩ := advance_eq_done_iff.1 finished
  have member : token ∈ before.stream.remaining := by
    rw [(TokenStream.next?_eq_some_iff.1 next).1]
    exact List.mem_cons_self
  obtain ⟨terminal, shown⟩ := Option.isSome_iff_exists.1 (legible token member)
  exact ⟨terminal, shown, ⟨.cons next shown (.nil _), others⟩⟩

/-- A move over a terminal is made by reading a token with that terminal. -/
theorem advance_of_reads {terminal : Terminal}
    (move : before.Reads context.source [terminal] after) :
    ∃ token, token.terminal? context.source = some terminal ∧
      advance.run context before = .done token after := by
  obtain ⟨token, next, shown⟩ := TokenStream.Reads.single_iff.1 move.stream
  exact ⟨token, shown, advance_eq_done_iff.2 ⟨next, move.others⟩⟩

/-- A token of a kind is expected successfully when it is read and is of the kind. -/
theorem expect_eq_done_iff {kind : Token.Kind} {token : Token} :
    (expect kind).run context before = .done token after ↔
      advance.run context before = .done token after ∧ token.kind = kind := by
  unfold expect
  rw [run_bind_eq_done_iff]
  constructor
  · rintro ⟨found, middle, read, finished⟩
    split at finished
    · next same =>
        obtain ⟨rfl, rfl⟩ := run_pure_eq_done_iff.1 finished
        exact ⟨read, same⟩
    · cases finished
  · rintro ⟨read, same⟩
    exact ⟨token, after, read, by rw [if_pos same, run_pure]⟩

/-- One of several kinds is expected successfully when a token is read and is of one of them. -/
theorem expectAny_eq_done_iff {kinds : List Token.Kind} {token : Token} :
    (expectAny kinds).run context before = .done token after ↔
      advance.run context before = .done token after ∧ token.kind ∈ kinds := by
  unfold expectAny
  rw [run_bind_eq_done_iff]
  constructor
  · rintro ⟨found, middle, read, finished⟩
    split at finished
    · next member =>
        obtain ⟨rfl, rfl⟩ := run_pure_eq_done_iff.1 finished
        exact ⟨read, List.contains_iff_mem.1 member⟩
    · cases finished
  · rintro ⟨read, member⟩
    exact ⟨token, after, read, by rw [if_pos (List.contains_iff_mem.2 member), run_pure]⟩

/-- Expecting a kind successfully moves over a terminal of the kind. -/
theorem reads_of_expect {kind : Token.Kind} {token : Token}
    (legible : before.stream.Legible context.source)
    (finished : (expect kind).run context before = .done token after) :
    ∃ terminal, token.terminal? context.source = some terminal ∧ terminal.kind = kind ∧
      before.Reads context.source [terminal] after := by
  obtain ⟨read, same⟩ := expect_eq_done_iff.1 finished
  obtain ⟨terminal, shown, move⟩ := reads_of_advance legible read
  exact ⟨terminal, shown, (Token.kind_of_terminal? shown).symm.trans same, move⟩

/-- The kind of the terminal to be read is expected successfully. -/
theorem expect_of_reads {terminal : Terminal}
    (move : before.Reads context.source [terminal] after) :
    ∃ token, token.terminal? context.source = some terminal ∧
      (expect terminal.kind).run context before = .done token after := by
  obtain ⟨token, shown, read⟩ := advance_of_reads move
  exact ⟨token, shown, expect_eq_done_iff.2 ⟨read, Token.kind_of_terminal? shown⟩⟩

/-- Expecting some kinds successfully moves over a terminal of one of them. -/
theorem reads_of_expectAny {kinds : List Token.Kind} {token : Token}
    (legible : before.stream.Legible context.source)
    (finished : (expectAny kinds).run context before = .done token after) :
    ∃ terminal, token.terminal? context.source = some terminal ∧ terminal.kind ∈ kinds ∧
      before.Reads context.source [terminal] after := by
  obtain ⟨read, member⟩ := expectAny_eq_done_iff.1 finished
  obtain ⟨terminal, shown, move⟩ := reads_of_advance legible read
  exact ⟨terminal, shown, Token.kind_of_terminal? shown ▸ member, move⟩

/-- Kinds are expected successfully when the kind of the terminal to be read is among them. -/
theorem expectAny_of_reads {kinds : List Token.Kind} {terminal : Terminal}
    (member : terminal.kind ∈ kinds) (move : before.Reads context.source [terminal] after) :
    ∃ token, token.terminal? context.source = some terminal ∧
      (expectAny kinds).run context before = .done token after := by
  obtain ⟨token, shown, read⟩ := advance_of_reads move
  exact ⟨token, shown,
    expectAny_eq_done_iff.2 ⟨read, (Token.kind_of_terminal? shown).symm ▸ member⟩⟩

/-! ## Marks, keywords, names and types -/

/-- A mark shows itself, whatever its span is. -/
theorem terminal?_of_mark {token : Token} {source : String} {sign : Punctuation}
    (kind : token.kind = .punctuation sign) : token.terminal? source = some (.mark sign) := by
  simp [Token.terminal?, kind]

/-- Reading a token that is a mark moves over that mark. -/
theorem reads_of_advanceMark {token : Token} {sign : Punctuation}
    (kind : token.kind = .punctuation sign)
    (finished : advance.run context before = .done token after) :
    before.Reads context.source [.mark sign] after := by
  obtain ⟨next, others⟩ := advance_eq_done_iff.1 finished
  exact ⟨.cons next (terminal?_of_mark kind) (.nil _), others⟩

/-- Expecting a mark successfully moves over it. -/
theorem reads_of_expectMark {sign : Punctuation}
    (finished : (expectMark sign).run context before = .done () after) :
    before.Reads context.source [.mark sign] after := by
  obtain ⟨token, middle, read, rest⟩ := run_bind_eq_done_iff.1 finished
  cases rest
  obtain ⟨read, kind⟩ := expect_eq_done_iff.1 read
  exact reads_of_advanceMark kind read

/-- The mark to be read is expected successfully. -/
theorem expectMark_of_reads {sign : Punctuation}
    (move : before.Reads context.source [.mark sign] after) :
    (expectMark sign).run context before = .done () after := by
  obtain ⟨token, _, read⟩ := expect_of_reads move
  exact run_bind_eq_done_iff.2 ⟨token, after, read, rfl⟩

/-- Expecting a reserved word successfully moves over it. -/
theorem reads_of_expectKeyword {word : Keyword} {token : Token}
    (legible : before.stream.Legible context.source)
    (finished : (expect (.keyword word)).run context before = .done token after) :
    before.Reads context.source [.keyword word] after := by
  obtain ⟨terminal, _, kind, move⟩ := reads_of_expect legible finished
  rw [Terminal.eq_keyword_of_kind kind] at move
  exact move

theorem run_required {text : String} :
    (required (some text) : Pass σ String).run context before = .done text before := rfl

/-- A text that must be there is found exactly when it is there. -/
theorem required_eq_done_iff {text? : Option String} {text : String} :
    (required text?).run context before = .done text after ↔
      text? = some text ∧ after = before := by
  cases text? with
  | none =>
      constructor
      · intro finished
        cases finished
      · rintro ⟨impossible, _⟩
        cases impossible
  | some found =>
      rw [run_required]
      constructor
      · rintro ⟨⟩
        exact ⟨rfl, rfl⟩
      · rintro ⟨same, rfl⟩
        cases same
        rfl

/-- The text of a token is what its span cuts out of the source. -/
theorem textOf_eq_done_iff {token : Token} {text : String} :
    (textOf token).run context before = .done text after ↔
      token.text? context.source = some text ∧ after = before :=
  required_eq_done_iff

/-- Reading a name moves over that name. -/
theorem reads_of_name {text : String} (legible : before.stream.Legible context.source)
    (finished : name.run context before = .done text after) :
    before.Reads context.source [.name text] after := by
  obtain ⟨token, middle, read, rest⟩ := run_bind_eq_done_iff.1 finished
  obtain ⟨isText, rfl⟩ := textOf_eq_done_iff.1 rest
  obtain ⟨terminal, shown, kind, move⟩ := reads_of_expect legible read
  obtain ⟨found, rfl⟩ := Terminal.exists_name_of_kind kind
  have same := Token.text?_of_name shown
  rw [isText, Option.some.injEq] at same
  rw [same]
  exact move

/-- The name to be read is the one that is found. -/
theorem name_of_reads {text : String} (move : before.Reads context.source [.name text] after) :
    name.run context before = .done text after := by
  obtain ⟨token, shown, read⟩ := expect_of_reads move
  exact run_bind_eq_done_iff.2
    ⟨token, after, read, textOf_eq_done_iff.2 ⟨Token.text?_of_name shown, rfl⟩⟩

/-- The types are the terminals that can stand as the type of a variable. -/
theorem mem_variableTypes_iff {terminal : Terminal} :
    terminal.kind ∈ Token.Kind.variableTypes ↔ ∃ type : TypeName, terminal = type.terminal := by
  constructor
  · intro member
    simp only [Token.Kind.variableTypes, List.mem_cons, List.not_mem_nil, or_false] at member
    rcases member with kind | kind | kind | kind
    · exact ⟨.int, Terminal.eq_keyword_of_kind kind⟩
    · exact ⟨.char, Terminal.eq_keyword_of_kind kind⟩
    · exact ⟨.boolean, Terminal.eq_keyword_of_kind kind⟩
    · obtain ⟨text, rfl⟩ := Terminal.exists_name_of_kind kind
      exact ⟨.named text, rfl⟩
  · rintro ⟨type, rfl⟩
    cases type <;> simp [TypeName.terminal, Terminal.kind, Token.Kind.variableTypes]

/-- The text of a token that shows a type is that type. -/
theorem text?_of_type {token : Token} {source : String} {type : TypeName}
    (shown : token.terminal? source = some type.terminal) :
    token.text? source = some type.text := by
  cases type with
  | named text => exact Token.text?_of_name shown
  | int => exact Token.text?_of_keyword shown
  | char => exact Token.text?_of_keyword shown
  | boolean => exact Token.text?_of_keyword shown

/-- Reading the name of a type moves over the terminal of that type. -/
theorem reads_of_typeName {text : String} (legible : before.stream.Legible context.source)
    (finished : typeName.run context before = .done text after) :
    ∃ type : TypeName, text = type.text ∧ before.Reads context.source [type.terminal] after := by
  obtain ⟨token, middle, read, rest⟩ := run_bind_eq_done_iff.1 finished
  obtain ⟨isText, rfl⟩ := textOf_eq_done_iff.1 rest
  obtain ⟨terminal, shown, member, move⟩ := reads_of_expectAny legible read
  obtain ⟨type, rfl⟩ := mem_variableTypes_iff.1 member
  have same := text?_of_type shown
  rw [isText, Option.some.injEq] at same
  exact ⟨type, same, move⟩

/-- The type to be read is the one whose name is found. -/
theorem typeName_of_reads {type : TypeName}
    (move : before.Reads context.source [type.terminal] after) :
    typeName.run context before = .done type.text after := by
  obtain ⟨token, shown, read⟩ := expectAny_of_reads (mem_variableTypes_iff.2 ⟨type, rfl⟩) move
  exact run_bind_eq_done_iff.2
    ⟨token, after, read, textOf_eq_done_iff.2 ⟨text?_of_type shown, rfl⟩⟩

/-! ## Looking ahead -/

theorem run_peek? : peek?.run context before = .done before.stream.peek? before := rfl

/-- A question about the next kind is answered without reading it. -/
theorem run_nextSatisfies (condition : Token.Kind → Bool) :
    (nextSatisfies condition).run context before =
      .done (before.nextKind?.any condition) before := by
  unfold nextSatisfies
  rw [run_bind_of_done run_peek?]
  unfold PassState.nextKind? TokenStream.nextKind?
  cases before.stream.peek? <;> rfl

/-- Whether a kind comes next is answered without reading it. -/
theorem run_nextIs (kind : Token.Kind) :
    (nextIs kind).run context before = .done (before.nextKind? == some kind) before := by
  unfold nextIs
  rw [run_nextSatisfies]
  cases before.nextKind? <;> simp

/-- The token that is read is the one that came next. -/
theorem nextKind?_of_advance {token : Token}
    (finished : advance.run context before = .done token after) :
    before.nextKind? = some token.kind := by
  have shape := (TokenStream.next?_eq_some_iff.1 (advance_eq_done_iff.1 finished).1).1
  simp [PassState.nextKind?, TokenStream.nextKind?, TokenStream.peek?, shape]

/-- A token is taken exactly when it comes next. -/
theorem take_eq_done_iff {kind : Token.Kind} {answer : Bool} :
    (take kind).run context before = .done answer after ↔
      (answer = true ∧ ∃ token, token.kind = kind ∧
        advance.run context before = .done token after) ∨
      (answer = false ∧ before.nextKind? ≠ some kind ∧ after = before) := by
  unfold take
  rw [run_bind_of_done (run_nextIs kind)]
  by_cases comes : before.nextKind? = some kind
  · rw [if_pos (by simp [comes]), run_bind_eq_done_iff]
    constructor
    · rintro ⟨token, middle, read, rest⟩
      cases rest
      have same := nextKind?_of_advance read
      rw [comes, Option.some.injEq] at same
      exact .inl ⟨rfl, token, same.symm, read⟩
    · rintro (⟨rfl, token, _, read⟩ | ⟨_, absent, _⟩)
      · exact ⟨token, after, read, rfl⟩
      · exact absurd comes absent
  · rw [if_neg (by simp [comes]), run_pure_eq_done_iff]
    constructor
    · rintro ⟨rfl, rfl⟩
      exact .inr ⟨rfl, comes, rfl⟩
    · rintro (⟨_, token, same, read⟩ | ⟨rfl, _, rfl⟩)
      · exact absurd (same ▸ nextKind?_of_advance read) comes
      · exact ⟨rfl, rfl⟩

/-- A terminal to be read is taken where its kind is asked for. -/
theorem take_of_reads {terminal : Terminal}
    (move : before.Reads context.source [terminal] after) :
    (take terminal.kind).run context before = .done true after := by
  obtain ⟨token, shown, read⟩ := advance_of_reads move
  exact take_eq_done_iff.2 (.inl ⟨rfl, token, Token.kind_of_terminal? shown, read⟩)

/-- Nothing is taken where another kind comes next. -/
theorem take_of_ne {kind : Token.Kind} (absent : before.nextKind? ≠ some kind) :
    (take kind).run context before = .done false before :=
  take_eq_done_iff.2 (.inr ⟨rfl, absent, rfl⟩)

/-- A mark is taken by moving over it, and is left alone only where another kind comes next. -/
theorem reads_of_takeMark {sign : Punctuation} {answer : Bool}
    (finished : (take (.punctuation sign)).run context before = .done answer after) :
    (answer = true ∧ before.Reads context.source [.mark sign] after) ∨
    (answer = false ∧ before.nextKind? ≠ some (.punctuation sign) ∧ after = before) := by
  rcases take_eq_done_iff.1 finished with ⟨rfl, token, kind, read⟩ | refused
  · exact .inl ⟨rfl, reads_of_advanceMark kind read⟩
  · exact .inr refused

/-- A reserved word is taken by moving over it, and is left alone only where another kind comes
next. -/
theorem reads_of_takeKeyword {word : Keyword} {answer : Bool}
    (legible : before.stream.Legible context.source)
    (finished : (take (.keyword word)).run context before = .done answer after) :
    (answer = true ∧ before.Reads context.source [.keyword word] after) ∨
    (answer = false ∧ before.nextKind? ≠ some (.keyword word) ∧ after = before) := by
  rcases take_eq_done_iff.1 finished with ⟨rfl, token, kind, read⟩ | refused
  · exact .inl ⟨rfl, reads_of_expectKeyword legible (expect_eq_done_iff.2 ⟨read, kind⟩)⟩
  · exact .inr refused

/-- Stepping back undoes a move over one terminal. -/
theorem unread_of_reads {terminal : Terminal}
    (move : before.Reads context.source [terminal] after) :
    unread.run context after = .done () before := by
  obtain ⟨token, next, _⟩ := TokenStream.Reads.single_iff.1 move.stream
  obtain ⟨remaining, consumed, ending⟩ := TokenStream.next?_eq_some_iff.1 next
  have back : after.stream.pushback? = some before.stream := by
    simp [TokenStream.pushback?, consumed, ending, ← remaining]
  unfold unread
  rw [run_bind_of_done (run_state context after), back, move.others]
  rfl

/-- Looking up a name leaves everything as it is. -/
theorem run_lookup? (text : String) :
    (lookup? text).run context before = .done (before.environment.place? text) before := rfl

theorem run_className :
    className.run context before = .done before.environment.className before := rfl

/-- Resolving the token of a name yields the variable it stands for. -/
theorem resolve_eq_done_iff {token : Token} {text : String} {place : Variable}
    (shown : token.terminal? context.source = some (.name text)) :
    (resolve token).run context before = .done place after ↔
      before.environment.place? text = some place ∧ after = before := by
  unfold resolve
  rw [run_bind_of_done (textOf_eq_done_iff.2 ⟨Token.text?_of_name shown, rfl⟩),
    run_bind_of_done (run_lookup? text)]
  cases before.environment.place? text with
  | none =>
      constructor
      · intro finished
        cases finished
      · rintro ⟨impossible, _⟩
        cases impossible
  | some found =>
      rw [run_pure_eq_done_iff]
      constructor
      · rintro ⟨rfl, rfl⟩
        exact ⟨rfl, rfl⟩
      · rintro ⟨same, rfl⟩
        cases same
        exact ⟨rfl, rfl⟩

/-! ## Loops -/

/-- Steps are repeated at most as often as the number of tokens allows. -/
theorem run_iterate (step : α → Pass σ (α ⊕ β)) (value : α) :
    (iterate step value).run context before =
      (iterateFor step context.bound value).run context before := rfl

/-- A loop is done when its first round is the last one or the rounds after it are done. -/
theorem iterateFor_eq_done_iff {step : α → Pass σ (α ⊕ β)} {rounds : Nat} {value : α}
    {result : β} :
    (iterateFor step (rounds + 1) value).run context before = .done result after ↔
      (step value).run context before = .done (.inr result) after ∨
      ∃ next middle, (step value).run context before = .done (.inl next) middle ∧
        (iterateFor step rounds next).run context middle = .done result after := by
  rw [iterateFor, run_bind_eq_done_iff]
  constructor
  · rintro ⟨next | last, middle, first, others⟩
    · exact .inr ⟨next, middle, first, others⟩
    · obtain ⟨rfl, rfl⟩ := run_pure_eq_done_iff.1 others
      exact .inl first
  · rintro (last | ⟨next, middle, first, others⟩)
    · exact ⟨.inr result, after, last, rfl⟩
    · exact ⟨.inl next, middle, first, others⟩

/-- A loop without rounds is not done. -/
theorem iterateFor_zero {step : α → Pass σ (α ⊕ β)} {value : α} {result : β} :
    (iterateFor step 0 value).run context before ≠ .done result after := by
  intro finished
  cases finished

/-- A round of items separated by commas. -/
def separatedStep (item : α → Pass σ α) (value : α) : Pass σ (α ⊕ α) := do
  let value ← item value
  if ← take (.punctuation .comma) then
    pure (.inl value)
  else
    pure (.inr value)

/-- Separated items are rounds of reading an item behind a comma. -/
theorem run_separated (item : α → Pass σ α) (value : α) :
    (separated item value).run context before =
      (iterateFor (separatedStep item) context.bound value).run context before := rfl

/-- Items are done when the first is and no comma follows it, or more items do behind one. -/
theorem separated_eq_done_iff {item : α → Pass σ α} {rounds : Nat} {value result : α} :
    (iterateFor (separatedStep item) (rounds + 1) value).run context before =
        .done result after ↔
      ((item value).run context before = .done result after ∧
        after.nextKind? ≠ some (.punctuation .comma)) ∨
      ∃ next middle later, (item value).run context before = .done next middle ∧
        middle.Reads context.source [.mark .comma] later ∧
        (iterateFor (separatedStep item) rounds next).run context later = .done result after := by
  rw [iterateFor_eq_done_iff]
  constructor
  · rintro (last | ⟨next, later, first, others⟩)
    · obtain ⟨next, middle, ran, choice⟩ := run_bind_eq_done_iff.1 last
      obtain ⟨answer, _, taken, rest⟩ := run_bind_eq_done_iff.1 choice
      rcases reads_of_takeMark taken with ⟨rfl, _⟩ | ⟨rfl, absent, rfl⟩
      · cases rest
      · cases rest
        exact .inl ⟨ran, absent⟩
    · obtain ⟨_, middle, ran, choice⟩ := run_bind_eq_done_iff.1 first
      obtain ⟨answer, _, taken, rest⟩ := run_bind_eq_done_iff.1 choice
      rcases reads_of_takeMark taken with ⟨rfl, comma⟩ | ⟨rfl, _, rfl⟩
      · cases rest
        exact .inr ⟨next, middle, later, ran, comma, others⟩
      · cases rest
  · rintro (⟨ran, absent⟩ | ⟨next, middle, later, ran, comma, others⟩)
    · refine .inl (run_bind_eq_done_iff.2 ⟨result, after, ran, ?_⟩)
      rw [run_bind_of_done (take_of_ne absent)]
      rfl
    · refine .inr ⟨next, later, run_bind_eq_done_iff.2 ⟨next, middle, ran, ?_⟩, others⟩
      have taken : (take (.punctuation .comma)).run context middle = .done true later :=
        take_of_reads comma
      rw [run_bind_of_done taken]
      rfl

/-- A round of parts that go on while a condition holds of the next token. -/
def whileStep (condition : Token.Kind → Bool) (part : α → Pass σ α) (value : α) :
    Pass σ (α ⊕ α) := do
  if ← nextSatisfies condition then
    pure (.inl (← part value))
  else
    pure (.inr value)

/-- Parts as long as a condition holds are rounds of reading one part. -/
theorem run_whileNext (condition : Token.Kind → Bool) (part : α → Pass σ α) (value : α) :
    (whileNext condition part value).run context before =
      (iterateFor (whileStep condition part) context.bound value).run context before := rfl

/-- A round ends the loop where the condition fails of the next token. -/
theorem whileStep_of_fails {condition : Token.Kind → Bool} {part : α → Pass σ α} {value : α}
    (fails : before.nextKind?.any condition = false) :
    (whileStep condition part value).run context before = .done (.inr value) before := by
  unfold whileStep
  rw [run_bind_of_done (run_nextSatisfies condition), fails]
  rfl

/-- A round reads one more part where the condition holds of the next token. -/
theorem whileStep_eq_done_iff_of_holds {condition : Token.Kind → Bool} {part : α → Pass σ α}
    {value : α} {outcome : α ⊕ α} (holds : before.nextKind?.any condition = true) :
    (whileStep condition part value).run context before = .done outcome after ↔
      ∃ next, outcome = .inl next ∧ (part value).run context before = .done next after := by
  unfold whileStep
  rw [run_bind_of_done (run_nextSatisfies condition), if_pos holds, run_bind_eq_done_iff]
  constructor
  · rintro ⟨next, middle, ran, rest⟩
    obtain ⟨rfl, rfl⟩ := run_pure_eq_done_iff.1 rest
    exact ⟨next, rfl, ran⟩
  · rintro ⟨next, rfl, ran⟩
    exact ⟨next, after, ran, rfl⟩

/-- Parts are done when the condition fails at once, or holds and the part and those after it are
done. -/
theorem whileNext_eq_done_iff {condition : Token.Kind → Bool} {part : α → Pass σ α}
    {rounds : Nat} {value result : α} :
    (iterateFor (whileStep condition part) (rounds + 1) value).run context before =
        .done result after ↔
      (before.nextKind?.any condition = false ∧ result = value ∧ after = before) ∨
      (before.nextKind?.any condition = true ∧
        ∃ next middle, (part value).run context before = .done next middle ∧
          (iterateFor (whileStep condition part) rounds next).run context middle =
            .done result after) := by
  rw [iterateFor_eq_done_iff]
  cases holds : before.nextKind?.any condition with
  | false =>
      rw [whileStep_of_fails holds]
      constructor
      · rintro (last | ⟨_, _, first, _⟩)
        · cases last
          exact .inl ⟨rfl, rfl, rfl⟩
        · cases first
      · rintro (⟨_, rfl, rfl⟩ | ⟨impossible, _⟩)
        · exact .inl rfl
        · cases impossible
  | true =>
      simp only [whileStep_eq_done_iff_of_holds holds]
      constructor
      · rintro (⟨_, impossible, _⟩ | ⟨_, middle, ⟨next, same, ran⟩, others⟩)
        · cases impossible
        · cases same
          exact .inr ⟨trivial, _, middle, ran, others⟩
      · rintro (⟨impossible, _⟩ | ⟨_, next, middle, ran, others⟩)
        · cases impossible
        · exact .inr ⟨next, middle, ⟨next, rfl, ran⟩, others⟩

end Pass

end JackCompiler
