import JackCompiler.Proofs.Labelling.Tally
import JackCompiler.Proofs.Prediction.Goal
import JackCompiler.Proofs.Recognition.ClassComplete

/-!
# Steps of the pass and what was foretold

A part of the pass comes to an end as its goals foretell: if it is rejected, then with the error
that was foretold of the terminals, at its place; and if it is done, the goals behind its own are
left. The first error is fixed from the start, so it is the same before and after every step, and
that is all that has to be kept. Breakdowns are left open.
-/

namespace JackCompiler

open Grammar

namespace SymbolTable

/-- A full storage class refuses every definition. -/
theorem Records.define?_eq_none {κ : Type} [StorageClass κ] [DecidableEq κ]
    {table : SymbolTable κ} {declared : List (Declaration κ)} {storage : κ}
    (records : table.Records declared) (name type : String)
    (full : ¬Declaration.count declared storage < Grammar.maxCount) :
    table.define? name type storage = none := by
  have counted := records.counts storage
  have bound := records.count_le storage
  refine define?_eq_none_iff.2 (UInt16.toNat_inj.1 ?_)
  rw [counted]
  exact Nat.le_antisymm bound (Nat.le_of_not_lt full)

end SymbolTable

/-- Where the token with a given number is, or the end if there is none. -/
def TokenStream.spanAt (stream : TokenStream) (place : Nat) : Span :=
  match stream.tokens[place]? with
  | some token => token.span
  | none => stream.endSpan

namespace Prediction

/-! ## States in which goals are left -/

/-- How many labels are drawn once a terminal is read. -/
def draws : Terminal → Nat
  | .keyword .if | .keyword .while => 2
  | _ => 0

/-- How many labels are drawn once all terminals are read. -/
def allDraws : List Terminal → Nat
  | [] => 0
  | first :: others => draws first + allDraws others

/-- What is foretold of a pass. -/
structure Forecast where
  context : PassContext
  /-- The stream at its start. -/
  start : TokenStream
  /-- The first error, if there is any. -/
  refusal? : Option Refusal
  /-- How many labels are drawn at most. -/
  draws : Nat

/-- Where the terminal with a given number is, or the end if there is none. -/
def Forecast.span (forecast : Forecast) (place : Nat) : Span := forecast.start.spanAt place

/-- A pass that stops because of an error does so as is foretold. Breakdowns are left open. -/
def Forecast.Foretells (forecast : Forecast) (state : PassState Tally) : Halt → Prop
  | .rejected cause =>
      state.labels.count ≤ forecast.draws ∧ ∃ refusal, forecast.refusal? = some refusal ∧
        cause = (forecast.span refusal.place).locate refusal.error
  | .broken _ => True

/-- A pass has come to a place, where given terminals are left, and knows of given names. -/
structure At (forecast : Forecast) (names : Names) (place : Nat) (terminals : List Terminal)
    (state : PassState Tally) : Prop where
  tokens : state.stream.tokens = forecast.start.tokens
  ending : state.stream.ending = forecast.start.ending
  place : state.stream.consumed.length = place
  shown : ∃ last, state.stream.Reads forecast.context.source terminals last ∧ last.remaining = []
  carries : state.Carries state.labels names.className names.ofClass names.ofSubroutine
  draws : state.labels.count + allDraws terminals ≤ forecast.draws

/-- Behind the start goals are left, and the first error in what is left of the terminals is what was
foretold. -/
def Faces (forecast : Forecast) (goals : List Goal) (names : Names) (state : PassState Tally) :
    Prop :=
  ∃ place terminals, At forecast names (place + 1) terminals state ∧
    refusal? goals names (place + 1) terminals = forecast.refusal?

/-- A terminal was read, and what follows from the reaction to it is what was foretold. -/
def Meets (forecast : Forecast) (reaction : Reaction) (goals : List Goal) (names : Names)
    (state : PassState Tally) : Prop :=
  ∃ place terminal terminals, At forecast names (place + 1) terminals state ∧
    reaction.refusal? goals names place (terminal :: terminals) = forecast.refusal?

variable {forecast : Forecast} {names : Names} {place : Nat} {terminal : Terminal}
  {terminals : List Terminal} {before after state : PassState Tally} {goals others : List Goal}

/-- A reaction that reads leaves its goals to be faced. -/
theorem Meets.faces (meets : Meets forecast (.read others names) goals names state) :
    Faces forecast (others ++ goals) names state := by
  obtain ⟨place, terminal, terminals, here, foretold⟩ := meets
  exact ⟨place, terminals, here, foretold⟩

namespace At

/-- The environment of the pass is made of the names that are known. -/
theorem environment (here : At forecast names place terminals state) :
    state.environment = names.environment :=
  here.carries.environment

/-- A terminal that is to come can be moved over. -/
theorem exists_reads (here : At forecast names place (terminal :: terminals) before) :
    ∃ after, before.Reads forecast.context.source [terminal] after := by
  obtain ⟨last, whole, _⟩ := here.shown
  obtain ⟨stream, move, _⟩ := whole.head
  exact ⟨{ before with stream }, move, rfl⟩

/-- Reading a terminal leads to the next place. Labels are still to be drawn. -/
theorem next (here : At forecast names place (terminal :: terminals) before)
    (move : before.Reads forecast.context.source [terminal] after) :
    At forecast names (place + 1) terminals after ∧
      after.labels.count + Prediction.draws terminal + allDraws terminals ≤ forecast.draws := by
  obtain ⟨token, read, shown⟩ := TokenStream.Reads.single_iff.1 move.stream
  obtain ⟨remaining, consumed, ending⟩ := TokenStream.next?_eq_some_iff.1 read
  have labels : after.labels = before.labels := by rw [move.others]
  have draws := here.draws
  rw [allDraws, ← labels] at draws
  obtain ⟨last, _ | ⟨again, _, others⟩, ended⟩ := here.shown
  rw [read] at again
  cases again
  refine ⟨⟨?_, ending.trans here.ending, ?_, ?_, ?_, by omega⟩, by omega⟩
  · rw [TokenStream.tokens_of_next? read, here.tokens]
  · rw [consumed, List.length_cons, here.place]
  · exact ⟨last, others, ended⟩
  · rw [labels]
    exact here.carries.reads move

/-- Where no terminal is to come, no token is left. -/
theorem remaining_eq_nil (here : At forecast names place [] state) :
    state.stream.remaining = [] := by
  obtain ⟨last, whole, ended⟩ := here.shown
  rw [← whole.eq_of_nil, ended]

/-- The next kind is that of the next terminal. -/
theorem nextKind? (here : At forecast names place terminals state) :
    state.nextKind? = Grammar.nextKind? terminals := by
  cases terminals with
  | nil =>
      simp [PassState.nextKind?, TokenStream.nextKind?, TokenStream.peek?, here.remaining_eq_nil]
  | cons terminal terminals =>
      obtain ⟨after, move⟩ := here.exists_reads
      exact move.nextKind?

/-- The latest token is the one before the place. -/
theorem lastSpan (here : At forecast names (place + 1) terminals state) :
    state.stream.lastSpan = forecast.span place := by
  have tokens := here.tokens
  have length := here.place
  unfold TokenStream.lastSpan Forecast.span TokenStream.spanAt
  rw [← tokens, TokenStream.tokens]
  cases consumed : state.stream.consumed with
  | nil => simp [consumed] at length
  | cons token others =>
      rw [consumed, List.length_cons] at length
      have latest : (others.reverse ++ token :: state.stream.remaining)[place]? = some token := by
        rw [List.getElem?_append_right (by simp; omega)]
        simp [show place - others.length = 0 by omega]
      simp [latest]

/-- Behind all terminals the place is the end of the text. -/
theorem endSpan (here : At forecast names place [] state) :
    state.stream.endSpan = forecast.span place := by
  have beyond : forecast.start.tokens[place]? = none := by
    rw [← here.tokens, ← here.place, TokenStream.tokens, here.remaining_eq_nil]
    simp
  rw [TokenStream.endSpan, here.ending, Forecast.span, TokenStream.spanAt, beyond]
  rfl

/-- Tables may change while nothing is read. -/
theorem retabled {names' : Names} (here : At forecast names place terminals before)
    (stream : after.stream = before.stream)
    (carries : after.Carries before.labels names'.className names'.ofClass names'.ofSubroutine) :
    At forecast names' place terminals after := by
  obtain ⟨tokens, ending, reached, shown, _, draws⟩ := here
  refine ⟨?_, ?_, ?_, ?_, ?_, ?_⟩
  · rw [stream, tokens]
  · rw [stream, ending]
  · rw [stream, reached]
  · rw [stream]
    exact shown
  · rw [carries.labels]
    exact carries
  · rw [carries.labels]
    exact draws

/-- Labels that are accounted for are drawn. -/
theorem drawn (here : At forecast names place terminals state)
    (draws : state.labels.count + 2 + allDraws terminals ≤ forecast.draws) :
    At forecast names place terminals { state with labels := ⟨state.labels.count + 2⟩ } := by
  obtain ⟨tokens, ending, reached, shown, ⟨_, className, ofClass, ofSubroutine⟩, _⟩ := here
  exact ⟨tokens, ending, reached, shown, ⟨rfl, className, ofClass, ofSubroutine⟩, draws⟩

/-- The token that was read is where its terminal is. -/
theorem span_of_next {token : Token} (here : At forecast names place (terminal :: terminals) before)
    (read : before.stream.next? = some (token, after.stream)) :
    token.span = forecast.span place := by
  obtain ⟨remaining, _, _⟩ := TokenStream.next?_eq_some_iff.1 read
  have same : forecast.start.tokens[place]? = some token := by
    rw [← here.tokens, ← here.place, TokenStream.tokens, remaining]
    simp
  rw [Forecast.span, TokenStream.spanAt, same]

end At

end Prediction

namespace Pass

open Prediction

variable {α β : Type} {forecast : Forecast} {names : Names} {place : Nat} {terminal : Terminal}
  {terminals : List Terminal} {before middle after : PassState Tally} {goals : List Goal}

/-- A part of the pass ends as is foretold: with the error that there is, or in a given way. -/
def Fulfils (forecast : Forecast) (part : Pass Tally α) (before : PassState Tally)
    (ends : α → PassState Tally → Prop) : Prop :=
  match part.run forecast.context before with
  | .done value after => ends value after
  | .halted reason after => forecast.Foretells after reason

/-! ## Parts that follow one another -/

section Sequences

variable {part : Pass Tally α} {next : α → Pass Tally β} {between : α → PassState Tally → Prop}
  {ends : β → PassState Tally → Prop}

/-- A value alone fulfils what holds already. -/
theorem fulfils_pure {value : β} (holds : ends value before) :
    Fulfils forecast (pure value) before ends := holds

/-- Breaking off fulfils everything, for breakdowns are left open. -/
theorem fulfils_breakOff (breakdown : Breakdown) :
    Fulfils forecast (breakOff breakdown : Pass Tally β) before ends := trivial

/-- Parts fulfil one after another what the second one fulfils behind the first one. -/
theorem Fulfils.bind (first : Fulfils forecast part before between)
    (second : ∀ value after, between value after → Fulfils forecast (next value) after ends) :
    Fulfils forecast (part >>= next) before ends := by
  unfold Fulfils at first ⊢
  rw [run_bind]
  cases outcome : part.run forecast.context before with
  | done value after =>
      rw [outcome] at first
      exact second value after first
  | halted reason after =>
      rw [outcome] at first
      exact first

/-- A part that is done leaves what was foretold to the part behind it. -/
theorem fulfils_bind_of_done {value : α}
    (first : part.run forecast.context before = .done value middle)
    (second : Fulfils forecast (next value) middle ends) :
    Fulfils forecast (part >>= next) before ends := by
  unfold Fulfils
  rw [run_bind_of_done first]
  exact second

/-- A part fulfils less than it does. -/
theorem Fulfils.mono {ends' : α → PassState Tally → Prop}
    (ran : Fulfils forecast part before between)
    (weaker : ∀ value after, between value after → ends' value after) :
    Fulfils forecast part before ends' := by
  unfold Fulfils at ran ⊢
  cases outcome : part.run forecast.context before with
  | done value after =>
      rw [outcome] at ran
      exact weaker value after ran
  | halted reason after =>
      rw [outcome] at ran
      exact ran

/-- A part that runs in the same way does the same. -/
theorem fulfils_of_run {part' : Pass Tally α}
    (same : part.run forecast.context before = part'.run forecast.context before)
    (ran : Fulfils forecast part' before between) : Fulfils forecast part before between := by
  unfold Fulfils
  rw [same]
  exact ran

/-- A rejection comes true if its error is the one that was foretold. -/
theorem fulfils_reject {span : Span} {error : ErrorKind}
    (draws : before.labels.count ≤ forecast.draws) (where_ : span = forecast.span place)
    (foretold : some ⟨place, error⟩ = forecast.refusal?) :
    Fulfils forecast (reject span error : Pass Tally β) before ends :=
  ⟨draws, ⟨place, error⟩, foretold.symm, by rw [where_]⟩

/-- A loop comes to an end as is foretold if every round does. -/
theorem fulfils_iterate {step : α → Pass Tally (α ⊕ β)} {value : α}
    (between : α → PassState Tally → Prop)
    (round : ∀ value state, between value state → Fulfils forecast (step value) state
      fun outcome after => outcome.elim (between · after) (ends · after))
    (holds : between value before) : Fulfils forecast (iterate step value) before ends := by
  show Fulfils forecast (iterateFor step forecast.context.bound value) before ends
  generalize forecast.context.bound = rounds
  induction rounds generalizing value before with
  | zero => exact fulfils_breakOff _
  | succ rounds inductionHypothesis =>
      refine (round value before holds).bind ?_
      rintro (next | result) after reached
      · exact inductionHypothesis reached
      · exact fulfils_pure reached

end Sequences

/-! ## Reading -/

section Reading

variable {ends : Token → PassState Tally → Prop}

/-- A token that was read: its terminal, where it is, and where that leads. -/
structure HasRead (forecast : Forecast) (names : Names) (place : Nat) (terminal : Terminal)
    (terminals : List Terminal) (before : PassState Tally) (token : Token)
    (after : PassState Tally) : Prop where
  move : before.Reads forecast.context.source [terminal] after
  shown : token.terminal? forecast.context.source = some terminal
  span : token.span = forecast.span place
  here : At forecast names (place + 1) terminals after
  draws : after.labels.count + Prediction.draws terminal + allDraws terminals ≤ forecast.draws

/-- There is a next token, or else the end is unexpected. -/
theorem fulfils_advance (here : At forecast names place terminals before)
    (ended : terminals = [] →
      some ⟨place, .grammatical .unexpectedEnd⟩ = forecast.refusal?)
    (goesOn : ∀ terminal others token after, terminals = terminal :: others →
      HasRead forecast names place terminal others before token after → ends token after) :
    Fulfils forecast advance before ends := by
  cases terminals with
  | nil =>
      have none : before.stream.next? = none := by
        simp [TokenStream.next?, here.remaining_eq_nil]
      have stopped : advance.run forecast.context before =
          (reject before.stream.endSpan (.grammatical .unexpectedEnd) : Pass Tally Token).run
            forecast.context before := by
        unfold advance
        rw [run_bind_of_done (run_state _ _), none]
      have refused : Fulfils forecast (reject before.stream.endSpan _) before ends :=
        fulfils_reject (Nat.le_trans (Nat.le_add_right _ _) here.draws) here.endSpan (ended rfl)
      unfold Fulfils
      rw [stopped]
      exact refused
  | cons terminal others =>
      obtain ⟨after, move⟩ := here.exists_reads
      obtain ⟨token, shown, read⟩ := advance_of_reads move
      obtain ⟨there, draws⟩ := here.next move
      unfold Fulfils
      rw [read]
      exact goesOn terminal others token after rfl
        ⟨move, shown, here.span_of_next (advance_eq_done_iff.1 read).1, there, draws⟩

/-- A terminal that is known to come next is read. -/
theorem fulfils_advanceOver (here : At forecast names place (terminal :: terminals) before) :
    Fulfils forecast advance before fun token after =>
      HasRead forecast names place terminal terminals before token after := by
  refine fulfils_advance here nofun ?_
  rintro first others token after ⟨⟩ read
  exact read

/-- A next token that is accepted is read, and any other is unexpected. -/
theorem fulfils_advanceIf (accepts : Token.Kind → Prop) [DecidablePred accepts]
    {error : Token.Kind → SyntaxError} (here : At forecast names place terminals before)
    (refuses : (∀ terminal, terminals.head? = some terminal → ¬accepts terminal.kind) →
      some ⟨place, unexpected terminals.head? error⟩ = forecast.refusal?)
    (goesOn : ∀ terminal others token after, terminals = terminal :: others →
      accepts terminal.kind → HasRead forecast names place terminal others before token after →
      ends token after) :
    Fulfils forecast (do
      let token ← advance
      if accepts token.kind then pure token
      else reject token.span (.grammatical (error token.kind))) before ends := by
  have reading : Fulfils forecast advance before fun token after => ∃ terminal others,
      terminals = terminal :: others ∧
        HasRead forecast names place terminal others before token after := by
    refine fulfils_advance here ?_ fun terminal others token after shape read =>
      ⟨terminal, others, shape, read⟩
    rintro rfl
    exact refuses nofun
  refine reading.bind ?_
  rintro token after ⟨terminal, others, rfl, read⟩
  have kind := Token.kind_of_terminal? read.shown
  split
  · next accepted => exact goesOn terminal others token after rfl (kind ▸ accepted) read
  · next rejected =>
      have draws := read.draws
      refine fulfils_reject (by omega) read.span ?_
      rw [kind] at rejected ⊢
      exact refuses (by rintro _ ⟨⟩; exact rejected)

/-- A kind is expected as foretold: refused if another one comes, and read otherwise. -/
theorem fulfils_expect {kind : Token.Kind} (here : At forecast names place terminals before)
    (refuses : (∀ terminal, terminals.head? = some terminal → terminal.kind ≠ kind) →
      some ⟨place, unexpected terminals.head? (.unexpected kind)⟩ = forecast.refusal?)
    (goesOn : ∀ terminal others token after, terminals = terminal :: others →
      terminal.kind = kind → HasRead forecast names place terminal others before token after →
      ends token after) :
    Fulfils forecast (expect kind) before ends :=
  fulfils_advanceIf (· = kind) here refuses goesOn

/-- One of some kinds is expected as foretold: refused if another one comes, and read otherwise. -/
theorem fulfils_expectAny {kinds : List Token.Kind} (here : At forecast names place terminals before)
    (refuses : (∀ terminal, terminals.head? = some terminal → terminal.kind ∉ kinds) →
      some ⟨place, unexpected terminals.head? (.unexpectedAny kinds)⟩ = forecast.refusal?)
    (goesOn : ∀ terminal others token after, terminals = terminal :: others →
      terminal.kind ∈ kinds → HasRead forecast names place terminal others before token after →
      ends token after) :
    Fulfils forecast (expectAny kinds) before ends := by
  refine fulfils_advanceIf (kinds.contains · = true) here (fun absent => refuses ?_) ?_
  · simpa only [List.contains_iff_mem] using absent
  · simpa only [List.contains_iff_mem] using goesOn

/-- A terminal of the kind that is the next goal, also at the start. -/
theorem fulfils_kindAt {kind : Token.Kind} (here : At forecast names place terminals before)
    (foretold : refusal? (.kind kind :: goals) names place terminals = forecast.refusal?) :
    Fulfils forecast (expect kind) before fun _ after => Faces forecast goals names after := by
  rw [refusal?_cons, Goal.react] at foretold
  refine fulfils_expect here (fun absent => ?_) ?_
  · rw [← foretold, Reaction.expect, if_neg]
    · rfl
    intro same
    obtain ⟨terminal, next, isKind⟩ := Option.map_eq_some_iff.1 same
    exact absent terminal next isKind
  · rintro terminal others token after rfl rfl read
    refine ⟨_, others, read.here, ?_⟩
    rw [← foretold, Reaction.expect, List.head?_cons, Option.map_some, if_pos rfl]
    rfl

/-- A kind that is the first goal is met by expecting it. -/
theorem fulfils_kind {kind : Token.Kind} (faces : Faces forecast (.kind kind :: goals) names before) :
    Fulfils forecast (expect kind) before fun _ after => Faces forecast goals names after := by
  obtain ⟨place, terminals, here, foretold⟩ := faces
  exact fulfils_kindAt here foretold

/-- A mark that is the first goal is met by expecting it. -/
theorem fulfils_mark {sign : Punctuation}
    (faces : Faces forecast (Goal.mark sign :: goals) names before) :
    Fulfils forecast (expectMark sign) before fun _ after => Faces forecast goals names after :=
  (fulfils_kind faces).bind fun _ _ faces => fulfils_pure faces

/-- An identifier, on whose text it depends what follows. -/
theorem fulfils_identifier {behind : String → Reaction}
    (here : At forecast names place terminals before)
    (foretold : (Reaction.expectName terminals.head? behind).refusal? goals names place terminals =
      forecast.refusal?) :
    Fulfils forecast (expect .identifier) before fun token after => ∃ text others,
      HasRead forecast names place (.name text) others before token after ∧
        (behind text).refusal? goals names place (.name text :: others) = forecast.refusal? := by
  refine fulfils_expect here (fun absent => ?_) ?_
  · rw [← foretold, Reaction.expectName]
    · rfl
    · exact fun text next => absent _ next rfl
  · rintro terminal others token after rfl kind read
    obtain ⟨text, rfl⟩ := Terminal.exists_name_of_kind kind
    exact ⟨text, others, read, foretold⟩

/-- A name is read as foretold, and then reacted to as its text is. -/
theorem fulfils_name {behind : String → Reaction} (here : At forecast names place terminals before)
    (foretold : (Reaction.expectName terminals.head? behind).refusal? goals names place terminals =
      forecast.refusal?) :
    Fulfils forecast name before fun text after => Meets forecast (behind text) goals names after := by
  refine (fulfils_identifier here foretold).bind ?_
  rintro token after ⟨text, others, read, foretold⟩
  have isText : (textOf token).run forecast.context after = .done text after :=
    textOf_eq_done_iff.2 ⟨Token.text?_of_name read.shown, rfl⟩
  unfold Fulfils
  rw [isText]
  exact ⟨place, .name text, others, read.here, foretold⟩

/-- A name of which nothing is kept. -/
theorem fulfils_anyName (faces : Faces forecast (.kind .identifier :: goals) names before) :
    Fulfils forecast name before fun _ after => Faces forecast goals names after := by
  obtain ⟨place, terminals, here, foretold⟩ := faces
  have same : Goal.react names terminals.head? (.kind .identifier) =
      Reaction.expectName terminals.head? fun _ => .read [] names := by
    rcases terminals with _ | ⟨terminal, terminals⟩
    · rfl
    · cases terminal <;> rfl
  rw [refusal?_cons, same] at foretold
  exact (fulfils_name here foretold).mono fun _ _ => Meets.faces

/-- The name of a type is read as foretold, whichever type it is. -/
theorem fulfils_typeName {behind : String → List Goal}
    (here : At forecast names place terminals before)
    (foretold : (Reaction.expectType terminals.head? behind names).refusal? goals names place
      terminals = forecast.refusal?) :
    Fulfils forecast typeName before fun type after =>
      Faces forecast (behind type ++ goals) names after := by
  have reading : Fulfils forecast (expectAny Token.Kind.variableTypes) before fun token after =>
      ∃ type : TypeName, token.terminal? forecast.context.source = some type.terminal ∧
        Faces forecast (behind type.text ++ goals) names after := by
    refine fulfils_expectAny here (fun absent => ?_) ?_
    · rw [← foretold]
      rcases terminals with _ | ⟨terminal, terminals⟩
      · rfl
      · have apart := absent terminal rfl
        rw [mem_variableTypes_iff] at apart
        rw [List.head?_cons, Reaction.expectType]
        · rfl
        · exact fun next => apart ⟨.int, Option.some.inj next⟩
        · exact fun next => apart ⟨.char, Option.some.inj next⟩
        · exact fun next => apart ⟨.boolean, Option.some.inj next⟩
        · exact fun text next => apart ⟨.named text, Option.some.inj next⟩
    · rintro terminal others token after rfl member read
      obtain ⟨type, rfl⟩ := mem_variableTypes_iff.1 member
      refine ⟨type, read.shown, place, others, read.here, ?_⟩
      rw [← foretold]
      cases type <;> rfl
  refine reading.bind ?_
  rintro token after ⟨type, shown, faces⟩
  have isText : (textOf token).run forecast.context after = .done type.text after :=
    textOf_eq_done_iff.2 ⟨text?_of_type shown, rfl⟩
  unfold Fulfils
  rw [isText]
  exact faces

/-- A terminal that is told by its kind is taken if it comes next. -/
theorem fulfils_take (decided : ∀ other : Terminal, other.kind = terminal.kind → other = terminal)
    (here : At forecast names place terminals before) :
    Fulfils forecast (take terminal.kind) before fun answer after =>
      (answer = true ∧ ∃ others, terminals = terminal :: others ∧
        At forecast names (place + 1) others after) ∨
      (answer = false ∧ terminals.head? ≠ some terminal ∧ after = before) := by
  unfold Fulfils
  by_cases next : terminals.head? = some terminal
  · obtain ⟨others, rfl⟩ := List.head?_eq_some_iff.1 next
    obtain ⟨after, move⟩ := here.exists_reads
    rw [take_of_reads move]
    exact .inl ⟨rfl, others, rfl, (here.next move).1⟩
  · have absent : before.nextKind? ≠ some terminal.kind := by
      rw [here.nextKind?]
      intro same
      obtain ⟨other, comes, kind⟩ := Option.map_eq_some_iff.1 same
      exact next (decided other kind ▸ comes)
    rw [take_of_ne absent]
    exact .inr ⟨rfl, next, rfl⟩

/-- Of two ways to go on with a goal, the next terminal takes the first one, or else the goal amounts
to others. -/
theorem fulfils_choice {goal : Goal} (inside instead : List Goal)
    (decided : ∀ other : Terminal, other.kind = terminal.kind → other = terminal)
    (reads : goal.react names (some terminal) = .read inside names)
    (amounts : ∀ place terminals, terminals.head? ≠ some terminal →
      refusal? (goal :: goals) names place terminals = refusal? (instead ++ goals) names place terminals)
    (faces : Faces forecast (goal :: goals) names before) :
    Fulfils forecast (take terminal.kind) before fun answer after =>
      Faces forecast ((if answer then inside else instead) ++ goals) names after := by
  obtain ⟨place, terminals, here, foretold⟩ := faces
  refine (fulfils_take decided here).mono ?_
  rintro answer after (⟨rfl, others, rfl, there⟩ | ⟨rfl, absent, rfl⟩)
  · exact ⟨_, others, there, refusal?_of_read reads ▸ foretold⟩
  · exact ⟨place, terminals, here, amounts _ terminals absent ▸ foretold⟩

/-- A goal that reads a mark, and is other goals without it, is met by taking that mark. -/
theorem fulfils_choiceOfMark {goal : Goal} {sign : Punctuation} (inside instead : List Goal)
    (reads : goal.react names (some (.mark sign)) = .read inside names)
    (amounts : ∀ place terminals, terminals.head? ≠ some (.mark sign) →
      refusal? (goal :: goals) names place terminals = refusal? (instead ++ goals) names place terminals)
    (faces : Faces forecast (goal :: goals) names before) :
    Fulfils forecast (take (.punctuation sign)) before fun answer after =>
      Faces forecast ((if answer then inside else instead) ++ goals) names after := by
  have decided (other : Terminal) (kind : other.kind = (Terminal.mark sign).kind) :
      other = .mark sign := Terminal.eq_mark_of_kind kind
  exact fulfils_choice inside instead decided reads amounts faces

end Reading

/-! ## Loops -/

section Loops

variable {between ends : α → PassState Tally → Prop} {value : α}

/-- Items separated by commas, if behind each of them there is a comma or the end of all. -/
theorem fulfils_separated {item : α → Pass Tally α} (begins : α → PassState Tally → Prop)
    (each : ∀ value state, begins value state → Fulfils forecast (item value) state between)
    (more : ∀ value state, between value state →
      Fulfils forecast (take (.punctuation .comma)) state fun answer after =>
        if answer then begins value after else ends value after)
    (holds : begins value before) : Fulfils forecast (separated item value) before ends := by
  refine fulfils_iterate begins (fun value state holds => ?_) holds
  refine (each value state holds).bind fun next middle reached => ?_
  refine (more next middle reached).bind ?_
  rintro (_ | _) after outcome
  · exact outcome
  · exact outcome

/-- Parts that are read as long as the next terminal satisfies a condition. -/
theorem fulfils_whileNext {condition : Token.Kind → Bool} {part : α → Pass Tally α}
    (begins : α → PassState Tally → Prop)
    (each : ∀ value state, begins value state → state.nextKind?.any condition = true →
      Fulfils forecast (part value) state begins)
    (finish : ∀ value state, begins value state → state.nextKind?.any condition = false →
      ends value state)
    (holds : begins value before) :
    Fulfils forecast (whileNext condition part value) before ends := by
  refine fulfils_iterate begins (fun value state holds => ?_) holds
  refine fulfils_bind_of_done (run_nextSatisfies condition) ?_
  cases comes : state.nextKind?.any condition with
  | true => exact (each value state holds comes).bind fun _ _ reached => reached
  | false => exact finish value state holds comes

end Loops

/-! ## Counts and names -/

/-- Too many items are found when the last of them is read. -/
theorem fulfils_tooMany {items : Countable} {ends : α → PassState Tally → Prop}
    (here : At forecast names (place + 1) terminals before)
    (foretold : some ⟨place, .limitExceeded items⟩ = forecast.refusal?) :
    Fulfils forecast (tooMany items) before ends := by
  refine fulfils_bind_of_done (run_state _ _) ?_
  exact fulfils_reject (Nat.le_trans (Nat.le_add_right _ _) here.draws) here.lastSpan foretold

/-- A sum that leaves its word is found when the last of what is counted is read. -/
theorem fulfils_sum {items : Countable} {left right : UInt16}
    {ends : UInt16 → PassState Tally → Prop}
    (here : At forecast names (place + 1) terminals before)
    (large : maxCount < left.toNat + right.toNat →
      some ⟨place, .limitExceeded items⟩ = forecast.refusal?)
    (small : ∀ total : UInt16, total.toNat = left.toNat + right.toNat → ends total before) :
    Fulfils forecast (sum items left right) before ends := by
  unfold sum
  split
  · next fits =>
      refine fulfils_pure (small _ ?_)
      rw [UInt16.toNat_add, Nat.mod_eq_of_lt fits]
  · next exceeds => exact fulfils_tooMany here (large (by rw [maxCount]; omega))

/-- A name stands for a variable, or else it is not resolved. -/
theorem fulfils_resolve {token : Token} {text : String} {ends : Variable → PassState Tally → Prop}
    (shown : token.terminal? forecast.context.source = some (.name text))
    (span : token.span = forecast.span place) (here : At forecast names (place + 1) terminals before)
    (hidden : (names.environment.place? text).isSome = false →
      some ⟨place, .unresolvedSymbol text⟩ = forecast.refusal?)
    (visible : (names.environment.place? text).isSome = true → ∀ found, ends found before) :
    Fulfils forecast (resolve token) before ends := by
  refine fulfils_bind_of_done (textOf_eq_done_iff.2 ⟨Token.text?_of_name shown, rfl⟩) ?_
  refine fulfils_bind_of_done (run_lookup? text) ?_
  rw [here.environment]
  cases place? : names.environment.place? text with
  | some found => exact fulfils_pure (visible (by rw [place?]; rfl) found)
  | none =>
      have draws := here.draws
      exact fulfils_reject (by omega) span (hidden (by rw [place?]; rfl))

/-- Defines a variable in a role. -/
def define (name type : String) : Role → Pass Tally Unit
  | .ofClass storage => defineInClass name type storage
  | .parameter => defineInSubroutine .parameters name type .argument
  | .local => defineInSubroutine .localVariables name type .local

/-- A variable of a class is declared as foretold: refused if there is no room for it. -/
theorem fulfils_defineInClass {name type : String} {storage : ClassStorage}
    {ends : Unit → PassState Tally → Prop} (here : At forecast names (place + 1) terminals before)
    (full : ¬names.count (.ofClass storage) < maxCount →
      some ⟨place, .limitExceeded .classVariables⟩ = forecast.refusal?)
    (room : names.count (.ofClass storage) < maxCount → ∀ after,
      At forecast (names.declare name type (.ofClass storage)) (place + 1) terminals after →
      ends () after) :
    Fulfils forecast (defineInClass name type storage) before ends := by
  by_cases small : names.count (.ofClass storage) < maxCount
  · obtain ⟨symbol, table, defined⟩ :=
      here.carries.ofClass.exists_define name type
        (by rw [Declaration.count_reverse]; exact small)
    have ran : (defineInClass name type storage).run forecast.context before = .done ()
        { before with scope := { before.scope with ofClass := table } } := by
      unfold defineInClass
      rw [run_bind_of_done (run_state _ _), defined]
      rfl
    obtain ⟨stream, carries⟩ := defineInClass_of_done here.carries ran
    unfold Fulfils
    rw [ran]
    exact room small _ (here.retabled stream carries)
  · have defined := here.carries.ofClass.define?_eq_none name type
      (by rw [Declaration.count_reverse]; exact small)
    refine fulfils_bind_of_done (run_state _ _) ?_
    rw [defined]
    exact fulfils_tooMany here (full small)

/-- A variable of a subroutine is declared as foretold: refused if there is no room for it. -/
theorem fulfils_defineInSubroutine {items : Countable} {name type : String}
    {storage : SubroutineStorage} {ends : Unit → PassState Tally → Prop}
    (here : At forecast names (place + 1) terminals before)
    (full : ¬Declaration.count names.ofSubroutine storage < maxCount →
      some ⟨place, .limitExceeded items⟩ = forecast.refusal?)
    (room : Declaration.count names.ofSubroutine storage < maxCount → ∀ after,
      At forecast { names with ofSubroutine := names.ofSubroutine ++ [⟨name, type, storage⟩] }
        (place + 1) terminals after → ends () after) :
    Fulfils forecast (defineInSubroutine items name type storage) before ends := by
  by_cases small : Declaration.count names.ofSubroutine storage < maxCount
  · obtain ⟨symbol, table, defined⟩ :=
      here.carries.ofSubroutine.exists_define name type
        (by rw [Declaration.count_reverse]; exact small)
    have ran : (defineInSubroutine items name type storage).run forecast.context before = .done ()
        { before with scope := { before.scope with ofSubroutine := table } } := by
      unfold defineInSubroutine
      rw [run_bind_of_done (run_state _ _), defined]
      rfl
    obtain ⟨stream, carries⟩ := defineInSubroutine_of_done here.carries ran
    unfold Fulfils
    rw [ran]
    exact room small _ (here.retabled stream carries)
  · have defined := here.carries.ofSubroutine.define?_eq_none name type
      (by rw [Declaration.count_reverse]; exact small)
    refine fulfils_bind_of_done (run_state _ _) ?_
    rw [defined]
    exact fulfils_tooMany here (full small)

/-- The name of a variable, which is defined in a role. -/
theorem fulfils_variable {role : Role} {type : String}
    (faces : Faces forecast (.variable role type :: goals) names before) :
    Fulfils forecast (do define (← name) type role) before fun _ after =>
      names.count role < maxCount ∧
        ∃ text, Faces forecast goals (names.declare text type role) after := by
  obtain ⟨place, terminals, here, foretold⟩ := faces
  rw [refusal?_cons, Goal.react] at foretold
  refine (fulfils_name here foretold).bind ?_
  rintro text after ⟨place, terminal, terminals, here, foretold⟩
  have full (large : ¬names.count role < maxCount) :
      some ⟨place, .limitExceeded role.items⟩ = forecast.refusal? := by
    rw [if_neg large] at foretold
    exact foretold
  have room (small : names.count role < maxCount) (state : PassState Tally)
      (there : At forecast (names.declare text type role) (place + 1) terminals state) :
      names.count role < maxCount ∧
        ∃ text, Faces forecast goals (names.declare text type role) state := by
    rw [if_pos small] at foretold
    exact ⟨small, text, place, terminals, there, foretold⟩
  cases role with
  | ofClass storage => exact fulfils_defineInClass here full room
  | parameter => exact fulfils_defineInSubroutine here full room
  | «local» => exact fulfils_defineInSubroutine here full room

end Pass

end JackCompiler
