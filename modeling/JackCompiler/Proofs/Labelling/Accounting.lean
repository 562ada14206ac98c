import JackCompiler.Proofs.Comparison.Concur
import JackCompiler.Proofs.Labelling.Tally
import JackCompiler.Proofs.Prediction.Steps

/-!
# Accounting for labels

A pass draws two labels for each choice and each loop whose keyword it has read, at once and before
it reads on. So wherever it stops, what was drawn is known from the tokens that were read: all of
them up to the one that the error is about. `Pass.Pays` says this of a part of a pass, by what holds
before it and what holds once it is done.

An error is about the latest token that was read, or about the one behind it, or it is found at the
end. Errors of counting are found somewhere behind the token they are reported at, the latest one,
and that token must not be a keyword whose labels are drawn already. It never is, because such a
keyword is followed by a parenthesis before anything is counted.
-/

namespace JackCompiler

/-! ## What tokens ask for -/

/-- Whether labels are drawn for tokens of a kind: those that open a choice or a loop. -/
def Token.Kind.draws : Token.Kind → Bool
  | .keyword .if | .keyword .while => true
  | _ => false

/-- The labels that are drawn for tokens: two for each that opens a choice or a loop. -/
def labelsFor (tokens : List Token) : Nat :=
  2 * tokens.countP fun token => token.kind.draws

@[simp] theorem labelsFor_nil : labelsFor [] = 0 := rfl

/-- A token pays for two labels if it is the keyword of a choice or a loop. -/
theorem labelsFor_cons (token : Token) (tokens : List Token) :
    labelsFor (token :: tokens) = labelsFor tokens + if token.kind.draws then 2 else 0 := by
  unfold labelsFor
  rw [List.countP_cons]
  split <;> omega

/-- The order of tokens is of no matter for what they pay. -/
@[simp] theorem labelsFor_reverse (tokens : List Token) :
    labelsFor tokens.reverse = labelsFor tokens := by
  rw [labelsFor, List.countP_reverse, labelsFor]

namespace Accounting

/-! ## States and errors -/

/-- So many labels are still to be drawn for the tokens that were read. -/
structure Owes (start : TokenStream) (owed : Nat) (state : PassState Tally) : Prop where
  tokens : state.stream.tokens = start.tokens
  ending : state.stream.ending = start.ending
  labels : state.labels.count + owed = labelsFor state.stream.consumed

/-- Some token was read, and no labels are drawn for the latest one. -/
def Quiet (consumed : List Token) : Prop :=
  ∃ token earlier, consumed = token :: earlier ∧ token.kind.draws = false

/-- All labels are drawn that the tokens ask for, and none for the latest one. -/
structure Rests (start : TokenStream) (state : PassState Tally) : Prop where
  owes : Owes start 0 state
  quiet : Quiet state.stream.consumed

/-- A token was just read, and all labels are drawn that the tokens before it ask for, of which
something is known. -/
structure Took (start : TokenStream) (Known : List Token → Prop) (token : Token)
    (state : PassState Tally) : Prop where
  tokens : state.stream.tokens = start.tokens
  ending : state.stream.ending = start.ending
  latest : ∃ earlier, state.stream.consumed = token :: earlier ∧
    state.labels.count = labelsFor earlier ∧ Known earlier

/-- An error is located at a token, or at the end if it is that there is no other token, and so many
labels are drawn as the tokens before that place ask for. -/
def Square (start : TokenStream) (cause : Located ErrorKind) (drawn : Nat) : Prop :=
  ∃ place ≤ start.tokens.length, cause.span = start.spanAt place ∧
    (place = start.tokens.length ↔ cause.value = .grammatical .unexpectedEnd) ∧
    drawn = labelsFor (start.tokens.take place)

/-- So it is if a pass stops for an error. Breakdowns are left open. -/
def Settled (start : TokenStream) (state : PassState Tally) : Halt → Prop
  | .rejected cause => Square start cause state.labels.count
  | .broken _ => True

variable {start : TokenStream} {Known : List Token → Prop} {token : Token}
  {state : PassState Tally} {kind : ErrorKind}

/-- An error in front of some tokens, or at the end if there are none. -/
theorem square_of_split {earlier others : List Token} {cause : Located ErrorKind} {drawn : Nat}
    (split : start.tokens = earlier.reverse ++ others) (paid : drawn = labelsFor earlier)
    (span : cause.span = (others.head?.map Token.span).getD start.endSpan)
    (atEnd : others = [] ↔ cause.value = .grammatical .unexpectedEnd) :
    Square start cause drawn := by
  have found : start.tokens[earlier.length]? = others.head? := by
    rw [split, List.getElem?_append_right (by simp), List.length_reverse, Nat.sub_self,
      List.head?_eq_getElem?]
  have before : start.tokens.take earlier.length = earlier.reverse := by
    rw [split, ← List.length_reverse, List.take_left]
  have length : start.tokens.length = earlier.length + others.length := by
    rw [split, List.length_append, List.length_reverse]
  refine ⟨earlier.length, by omega, ?_, ?_, ?_⟩
  · rw [span, TokenStream.spanAt, found]
    cases others <;> rfl
  · rw [← atEnd, length, ← List.length_eq_zero_iff]
    omega
  · rw [before, labelsFor_reverse, paid]

/-- A token that was just read can be refused. -/
theorem Took.square (took : Took start Known token state)
    (other : kind ≠ .grammatical .unexpectedEnd) :
    Square start (token.span.locate kind) state.labels.count := by
  obtain ⟨earlier, shape, paid, _⟩ := took.latest
  have split : start.tokens = earlier.reverse ++ token :: state.stream.remaining := by
    rw [← took.tokens, TokenStream.tokens, shape, List.reverse_cons, List.append_assoc,
      List.singleton_append]
  exact square_of_split split paid rfl (iff_of_false (List.cons_ne_nil _ _) other)

/-- So can the next one. -/
theorem Owes.square (owes : Owes start 0 state) (next : state.stream.peek? = some token)
    (other : kind ≠ .grammatical .unexpectedEnd) :
    Square start (token.span.locate kind) state.labels.count := by
  obtain ⟨others, shape⟩ := List.head?_eq_some_iff.1 next
  have split : start.tokens = state.stream.consumed.reverse ++ token :: others := by
    rw [← owes.tokens, TokenStream.tokens, shape]
  exact square_of_split split owes.labels rfl (iff_of_false (List.cons_ne_nil _ _) other)

/-- A missing token is found missing at the end. -/
theorem Owes.square_of_end (owes : Owes start 0 state) (none : state.stream.next? = none) :
    Square start (state.stream.endSpan.locate (.grammatical .unexpectedEnd))
      state.labels.count := by
  have ended : state.stream.remaining = [] := by
    unfold TokenStream.next? at none
    split at none
    · assumption
    · cases none
  have split : start.tokens = state.stream.consumed.reverse ++ [] := by
    rw [← owes.tokens, TokenStream.tokens, ended]
  have span : state.stream.endSpan = start.endSpan := congrArg Span.emptyAt owes.ending
  exact square_of_split split owes.labels span (iff_of_true rfl rfl)

/-- A token for which no labels are drawn asks for none. -/
theorem Took.rests (took : Took start Known token state) (quiet : token.kind.draws = false) :
    Rests start state := by
  obtain ⟨earlier, shape, paid, _⟩ := took.latest
  refine ⟨⟨took.tokens, took.ending, ?_⟩, token, earlier, shape, quiet⟩
  rw [shape, labelsFor_cons, quiet, paid]
  rfl

/-- The other tokens ask for two. -/
theorem Took.owes (took : Took start Known token state) (draws : token.kind.draws = true) :
    Owes start 2 state := by
  obtain ⟨earlier, shape, paid, _⟩ := took.latest
  refine ⟨took.tokens, took.ending, ?_⟩
  rw [shape, labelsFor_cons, draws, paid]
  rfl

/-- The latest token is one for which no labels are drawn. -/
theorem Rests.took (rests : Rests start state) :
    ∃ token, Took start (fun _ => True) token state ∧ state.stream.lastSpan = token.span := by
  obtain ⟨token, earlier, shape, quiet⟩ := rests.quiet
  have labels := rests.owes.labels
  rw [shape, labelsFor_cons, quiet] at labels
  refine ⟨token, ⟨rests.owes.tokens, rests.owes.ending, earlier, shape, labels, trivial⟩, ?_⟩
  rw [TokenStream.lastSpan, shape]

/-- Only the stream and the labels matter. -/
theorem Rests.changed {after : PassState Tally} (rests : Rests start state)
    (stream : after.stream = state.stream) (labels : after.labels = state.labels) :
    Rests start after := by
  obtain ⟨⟨tokens, ending, paid⟩, quiet⟩ := rests
  rw [← stream] at tokens ending quiet
  rw [← stream, ← labels] at paid
  exact ⟨⟨tokens, ending, paid⟩, quiet⟩

end Accounting

namespace Pass

open Accounting

variable {start : TokenStream} {α β : Type} {Known : List Token → Prop} {token : Token}

/-- Run from any state of a given sort, a part of a pass is done with what is ensured, or stops for
an error for which the labels are square. -/
def Pays (start : TokenStream) (given : PassState Tally → Prop) (part : Pass Tally α)
    (ensured : α → PassState Tally → Prop) : Prop :=
  ∀ context before, given before →
    match part.run context before with
    | .done value after => ensured value after
    | .halted reason after => Settled start after reason

/-- A part between whose ends everything is paid. -/
def Keeps (start : TokenStream) (part : Pass Tally α) : Prop :=
  Pays start (Rests start) part fun _ => Rests start

/-! ## Parts that follow one another -/

section Sequences

variable {given given' : PassState Tally → Prop} {part : Pass Tally α} {next : α → Pass Tally β}
  {between : α → PassState Tally → Prop} {ensured : β → PassState Tally → Prop}

/-- A value alone pays where what it ensures held already. -/
theorem pays_pure {value : β} (holds : ∀ state, given state → ensured value state) :
    Pays start given (pure value) ensured :=
  fun _ state given => holds state given

/-- Breaking off pays, for nothing is claimed about it. -/
theorem pays_breakOff (breakdown : Breakdown) :
    Pays start given (breakOff breakdown) ensured :=
  fun _ _ _ => trivial

/-- Parts pay one after another when the second one is given what the first one ensures. -/
theorem Pays.bind (first : Pays start given part between)
    (second : ∀ value, Pays start (between value) (next value) ensured) :
    Pays start given (part >>= next) ensured := by
  intro context before holds
  have ran := first context before holds
  rw [run_bind]
  cases outcome : part.run context before with
  | done value after =>
      rw [outcome] at ran
      exact second value context after ran
  | halted reason after =>
      rw [outcome] at ran
      exact ran

/-- A part pays where more is given. -/
theorem Pays.strengthen (pays : Pays start given part between)
    (stronger : ∀ state, given' state → given state) : Pays start given' part between :=
  fun context before holds => pays context before (stronger before holds)

/-- A part pays for less than it ensures. -/
theorem Pays.weaken {between' : α → PassState Tally → Prop} (pays : Pays start given part between)
    (weaker : ∀ value state, between value state → between' value state) :
    Pays start given part between' := by
  intro context before holds
  have ran := pays context before holds
  cases outcome : part.run context before with
  | done value after =>
      rw [outcome] at ran
      exact weaker value after ran
  | halted reason after =>
      rw [outcome] at ran
      exact ran

/-- What holds whatever the state is may be presumed. -/
theorem pays_assuming {fact : Prop} (pays : fact → Pays start given part between) :
    Pays start (fun state => given state ∧ fact) part between :=
  fun context before holds => pays holds.2 context before holds.1

/-- A part may depend on the context. -/
theorem pays_context {next : PassContext → Pass Tally β}
    (each : ∀ context, Pays start given (next context) ensured) :
    Pays start given (context >>= next) ensured :=
  fun context before holds => each context context before holds

/-- Parts that owe nothing before and after them owe nothing one after another. -/
theorem Keeps.bind {next : α → Pass Tally β} (first : Keeps start part)
    (second : ∀ value, Keeps start (next value)) : Keeps start (part >>= next) :=
  Pays.bind first second

/-- A value alone owes nothing. -/
theorem keeps_pure (value : α) : Keeps start (pure value) := pays_pure fun _ rests => rests

/-- A loop keeps what every round keeps. The induction is on the rounds that are left. -/
theorem keeps_iterate {step : α → Pass Tally (α ⊕ β)} (round : ∀ value, Keeps start (step value))
    (value : α) : Keeps start (iterate step value) := by
  apply pays_context
  intro context
  generalize context.bound = rounds
  induction rounds generalizing value with
  | zero => exact pays_breakOff _
  | succ rounds inductionHypothesis =>
      refine (round value).bind ?_
      rintro (next | result)
      · exact inductionHypothesis next
      · exact keeps_pure result

end Sequences

/-! ## Tokens -/

/-- Reading a token leaves its labels owed, and it is the latest token then. -/
theorem pays_advance : Pays start
    (fun state => Owes start 0 state ∧ Known state.stream.consumed) advance
    (Took start Known) := by
  rintro context before ⟨owes, known⟩
  unfold advance
  rw [run_bind_of_done (run_state context before)]
  cases next : before.stream.next? with
  | none => exact owes.square_of_end next
  | some read =>
      obtain ⟨token, after⟩ := read
      obtain ⟨_, consumed, ending⟩ := TokenStream.next?_eq_some_iff.1 next
      refine ⟨(TokenStream.tokens_of_next? next).trans owes.tokens, ending.trans owes.ending, ?_⟩
      exact ⟨_, consumed, owes.labels, known⟩

/-- With everything paid a token is read. -/
theorem pays_advance_of_rests : Pays start (Rests start) advance (Took start Quiet) :=
  pays_advance.strengthen fun _ rests => ⟨rests.owes, rests.quiet⟩

/-- So it is if nothing is known of the tokens before. -/
theorem pays_advance_of_owes :
    Pays start (Owes start 0) advance (Took start fun _ => True) :=
  pays_advance.strengthen fun _ owes => ⟨owes, trivial⟩

/-- An error at the latest token is about it, so its labels are accounted for. -/
theorem pays_reject {kind : ErrorKind} {ensured : β → PassState Tally → Prop}
    (other : kind ≠ .grammatical .unexpectedEnd) :
    Pays start (Took start Known token) (reject token.span kind) ensured :=
  fun _ _ took => took.square other

/-- A token that is unread leaves what was there before. -/
theorem pays_unread : Pays start (Took start Quiet token) unread fun _ => Rests start := by
  intro context before took
  obtain ⟨earlier, shape, paid, quiet⟩ := took.latest
  have stepped := TokenStream.pushback?_of_cons shape
  unfold unread
  rw [run_bind_of_done (run_state context before), stepped]
  refine ⟨⟨?_, took.ending, paid⟩, quiet⟩
  exact (TokenStream.tokens_of_pushback? stepped).trans took.tokens

/-- Looking at the next token changes nothing, and the token is known then. -/
theorem pays_peek? {given : PassState Tally → Prop} : Pays start given peek? fun next state =>
    given state ∧ state.stream.peek? = next :=
  fun _ _ holds => ⟨holds, rfl⟩

/-- Asking about the next kind changes nothing, and the answer is known then. -/
theorem pays_nextSatisfies {given : PassState Tally → Prop} (condition : Token.Kind → Bool) :
    Pays start given (nextSatisfies condition) fun answer state =>
      given state ∧ state.nextKind?.any condition = answer := by
  intro context before holds
  rw [run_nextSatisfies]
  exact ⟨holds, rfl⟩

/-- Once the next token was looked at, it is the one that is read. -/
theorem pays_advanceOver {kind : Token.Kind} (quiet : kind.draws = false) :
    Pays start (fun state => Rests start state ∧ state.nextKind? = some kind) advance
      fun _ => Rests start := by
  rintro context before ⟨rests, next⟩
  obtain ⟨token, isNext, same⟩ := Option.map_eq_some_iff.1 next
  obtain ⟨others, shape⟩ := List.head?_eq_some_iff.1 isNext
  have read : advance.run context before = .done token { before with stream := _ } :=
    advance_eq_done_iff.2 ⟨TokenStream.next?_of_cons shape, rfl⟩
  have took := pays_advance_of_rests context before rests
  rw [read] at took ⊢
  exact took.rests (same ▸ quiet)

/-- A kind that draws nothing is taken without debts. -/
theorem keeps_take {kind : Token.Kind} (quiet : kind.draws = false) :
    Keeps start (take kind) := by
  refine (pays_nextSatisfies _).bind ?_
  rintro (_ | _)
  · exact pays_pure fun _ looked => looked.1
  · refine Pays.bind ((pays_advanceOver quiet).strengthen ?_) fun _ => keeps_pure _
    rintro state ⟨rests, found⟩
    obtain ⟨next, isNext, same⟩ := (Option.any_eq_true _ _).1 found
    exact ⟨rests, isNext.trans (congrArg some (eq_of_beq same))⟩

/-- A loop keeps the books even if its parts do. -/
theorem keeps_whileNext (condition : Token.Kind → Bool) {part : α → Pass Tally α}
    (each : ∀ value, Keeps start (part value)) (value : α) :
    Keeps start (whileNext condition part value) := by
  apply keeps_iterate
  intro value
  refine (pays_nextSatisfies condition).bind ?_
  rintro (_ | _)
  · exact pays_pure fun _ looked => looked.1
  · exact ((each value).bind fun _ => keeps_pure _).strengthen fun _ looked => looked.1

/-- Separated items keep the books even if each item does. -/
theorem keeps_separated {item : α → Pass Tally α} (each : ∀ value, Keeps start (item value))
    (value : α) : Keeps start (separated item value) := by
  apply keeps_iterate
  intro value
  refine (each value).bind fun _ => (keeps_take rfl).bind ?_
  rintro (_ | _)
  · exact keeps_pure _
  · exact keeps_pure _

/-- Expecting a kind leaves the labels of that kind owed. -/
theorem pays_expect (kind : Token.Kind) : Pays start (Owes start 0) (expect kind)
    fun token state => Took start (fun _ => True) token state ∧ token.kind = kind := by
  refine pays_advance_of_owes.bind fun token => ?_
  by_cases expected : token.kind = kind
  · simp only [if_pos expected]
    exact pays_pure fun _ took => ⟨took, expected⟩
  · simp only [if_neg expected]
    exact pays_reject nofun

/-- A token for which no labels are drawn is read, also right behind one for which they are. -/
theorem pays_expectQuiet {kind : Token.Kind} (quiet : kind.draws = false) :
    Pays start (Owes start 0) (expect kind) fun _ => Rests start :=
  (pays_expect kind).weaken fun _ _ read => read.1.rests (read.2 ▸ quiet)

/-- Expecting a mark leaves nothing owed, and the mark is the latest token. -/
theorem pays_expectMark (mark : Punctuation) :
    Pays start (Owes start 0) (expectMark mark) fun _ => Rests start :=
  (pays_expectQuiet rfl).bind fun _ => keeps_pure ()

/-- Expecting a mark keeps the books even. -/
theorem keeps_expectMark (mark : Punctuation) : Keeps start (expectMark mark) :=
  (pays_expectMark mark).strengthen fun _ rests => rests.owes

/-- A mark that closes what was read before. -/
theorem keeps_closed (mark : Punctuation) (value : α) :
    Keeps start (expectMark mark >>= fun _ => pure value) :=
  (keeps_expectMark mark).bind fun _ => keeps_pure value

/-- Kinds that draw nothing are expected without debts. -/
theorem keeps_expectAny {kinds : List Token.Kind}
    (quiet : ∀ kind ∈ kinds, kind.draws = false) : Keeps start (expectAny kinds) := by
  refine pays_advance_of_rests.bind fun token => ?_
  cases expected : kinds.contains token.kind with
  | true => exact pays_pure fun _ took => took.rests (quiet _ (List.contains_iff_mem.1 expected))
  | false => exact pays_reject nofun

/-! ## Texts, counts and names -/

section Keeping

variable {given : PassState Tally → Prop}

/-- A text that must be there changes nothing. -/
theorem pays_required (text? : Option String) :
    Pays start given (required text?) fun _ => given := by
  cases text? with
  | some text => exact pays_pure fun _ holds => holds
  | none => exact pays_breakOff _

/-- Asking for the text of a token changes nothing. -/
theorem pays_textOf (token : Token) : Pays start given (textOf token) fun _ => given :=
  pays_context fun _ => pays_required _

/-- Asking for the name of the class changes nothing. -/
theorem pays_className : Pays start given className fun _ => given :=
  fun _ _ holds => holds

/-- Looking a name up changes nothing. -/
theorem pays_lookup? (name : String) : Pays start given (lookup? name) fun _ => given :=
  fun _ _ holds => holds

/-- A name that stands for nothing is refused where it was just read. -/
theorem pays_resolve (took : ∀ state, given state → Took start Known token state) :
    Pays start given (resolve token) fun _ => given := by
  refine (pays_textOf token).bind fun name => (pays_lookup? name).bind ?_
  rintro (_ | found)
  · have refused : Pays start (Took start Known token)
        (reject token.span (.unresolvedSymbol name)) fun (_ : Variable) => given :=
      pays_reject nofun
    exact refused.strengthen took
  · exact pays_pure fun _ holds => holds

end Keeping

/-- Reading a name keeps the books even. -/
theorem keeps_name : Keeps start name := by
  have read : Keeps start (expect .identifier) :=
    (pays_expectQuiet rfl).strengthen fun _ rests => rests.owes
  exact read.bind fun token => pays_textOf token

/-- Reading the name of a type keeps the books even. -/
theorem keeps_typeName : Keeps start typeName :=
  (keeps_expectAny (by decide)).bind fun token => pays_textOf token

/-- Errors of counting are reported at the latest token, for which no labels are drawn. -/
theorem keeps_tooMany (α : Type) (items : Countable) :
    Keeps start (tooMany items : Pass Tally α) := by
  intro context before rests
  obtain ⟨token, took, span⟩ := rests.took
  unfold tooMany
  rw [run_bind_of_done (run_state context before), span]
  exact took.square nofun

/-- Sums with a limit keep the books even. -/
theorem keeps_sum (items : Countable) (left right : UInt16) : Keeps start (sum items left right) := by
  unfold sum
  split
  · exact keeps_pure _
  · exact keeps_tooMany _ items

/-- Declaring a variable of a class keeps the books even. -/
theorem keeps_defineInClass (name type : String) (storage : ClassStorage) :
    Keeps start (defineInClass name type storage) := by
  intro context before rests
  unfold defineInClass
  rw [run_bind_of_done (run_state context before)]
  cases before.scope.ofClass.define? name type storage with
  | some defined => exact rests.changed rfl rfl
  | none => exact keeps_tooMany Unit _ context before rests

/-- Declaring a variable of a subroutine keeps the books even. -/
theorem keeps_defineInSubroutine (items : Countable) (name type : String)
    (storage : SubroutineStorage) : Keeps start (defineInSubroutine items name type storage) := by
  intro context before rests
  unfold defineInSubroutine
  rw [run_bind_of_done (run_state context before)]
  cases before.scope.ofSubroutine.define? name type storage with
  | some defined => exact rests.changed rfl rfl
  | none => exact keeps_tooMany Unit _ context before rests

/-- Opening a subroutine keeps the books even. -/
theorem keeps_openSubroutine : Keeps start openSubroutine :=
  fun _ _ rests => rests.changed rfl rfl

/-- Naming the class keeps the books even. -/
theorem keeps_setClassName (name : String) : Keeps start (setClassName name) :=
  fun _ _ rests => rests.changed rfl rfl

/-! ## Labels -/

/-- A label that is drawn is one that was owed. -/
theorem pays_draw (owed : Nat) : Pays start (Owes start (owed + 1)) draw fun _ => Owes start owed :=
  fun _ _ owes => ⟨owes.tokens, owes.ending, by
    have paid := owes.labels
    show _ + 1 + owed = labelsFor _
    rw [← paid, Nat.add_assoc, Nat.add_comm 1]⟩

end Pass

end JackCompiler
