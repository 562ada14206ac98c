import JackCompiler.Proofs.Termination.Nesting
import Mathlib.Data.List.Chain
import Mathlib.Logic.Relation

/-!
# Calls

A recogniser that is entered in some state calls another in some state if what the second does
there makes a difference for what the first does. Calls lead to visits with fewer tokens left, or
with as many and a recogniser of lower rank; so from a recogniser back to itself the number of
tokens left goes down, and the recognisers are the only ones that do what their bodies do. The
number of tokens left alone would not do: a list of arguments that starts with a call is entered, as
a list, an expression, a term and a call, in front of the same token, although the term has read
that token before.
-/

namespace JackCompiler

namespace Pass

variable {σ : Type} {context : PassContext} {state after : PassState σ}

/-- A list of arguments that stops with its first expression. -/
theorem run_expressionList_of_halted {expression : Pass σ Code} {reason : Halt}
    (rounds : 0 < context.bound) (opened : state.nextKind? ≠ some (.punctuation .rightParen))
    (stops : expression.run context state = .halted reason after) :
    (expressionList expression).run context state = .halted reason after := by
  have notClosed : (state.nextKind? == some (.punctuation .rightParen)) = false :=
    beq_eq_false_iff_ne.2 opened
  obtain ⟨fewer, isBound⟩ := Nat.exists_eq_add_of_lt rounds
  rw [Nat.zero_add] at isBound
  rw [expressionList_eq, run_bind_of_done (run_nextIs _), notClosed]
  show (separated _ _).run context state = _
  rw [run_separated, isBound, iterateFor]
  exact run_bind_of_halted (run_bind_of_halted (run_bind_of_halted stops))

/-- A name in front of a parenthesis or a dot is made unread, and the term is the call. -/
theorem run_termVia_of_call {term expression call : Pass σ Code} {token next : Token}
    {others : List Token} (comes : state.stream.remaining = token :: next :: others)
    (isName : token.kind = .identifier)
    (opens : next.kind = .punctuation .leftParen ∨ next.kind = .punctuation .dot) :
    (termVia term expression call).run context state = call.run context state := by
  let middle : PassState σ := { state with stream := { state.stream with
    consumed := token :: state.stream.consumed, remaining := next :: others } }
  have read : advance.run context state = .done token middle := by
    refine advance_eq_done_iff.2 ⟨?_, rfl⟩
    rw [TokenStream.next?, comes]
  have back : (unread >>= fun _ => call).run context middle = call.run context state :=
    run_bind_of_done (run_unread_of_advance read)
  have isNext : middle.stream.peek?.map Token.kind = some next.kind := rfl
  unfold termVia primaryVia
  rw [run_bind_of_done read, isName]
  show (nameTermVia expression call token).run context middle = _
  unfold nameTermVia
  rw [run_bind_of_done run_peek?, isNext]
  rcases opens with opens | opens
  · rw [opens]
    exact back
  · rw [opens]
    exact back

end Pass

/-- A recogniser and what the pass carries along where it is entered. -/
structure Visit (σ : Type) where
  recogniser : Recogniser
  state : PassState σ

namespace Visit

variable {σ : Type}

/-- Whether fewer tokens are left at one visit than at another, or as many and its recogniser is of
lower rank. -/
def Below (callee caller : Visit σ) : Prop :=
  callee.state.left < caller.state.left ∨
    callee.state.left = caller.state.left ∧ callee.recogniser.rank < caller.recogniser.rank

/-- What is below something below is below. -/
theorem Below.trans {first second third : Visit σ} (lower : first.Below second)
    (higher : second.Below third) : first.Below third := by
  unfold Below at *
  omega

/-- How many visits can lie below a visit on one way down. -/
def height (visit : Visit σ) : Nat := 4 * visit.state.left + visit.recogniser.rank

/-- What is below has a smaller height, of which four belong to each token. -/
theorem Below.height_lt {callee caller : Visit σ} (below : callee.Below caller) :
    callee.height < caller.height := by
  have few : callee.recogniser.rank < 4 := by cases callee.recogniser <;> decide
  unfold Below at below
  unfold height
  omega

/-- There is no endless way down. -/
theorem wellFounded_below : WellFounded (Below : Visit σ → Visit σ → Prop) :=
  Subrelation.wf Below.height_lt (measure height).wf

variable [LabelSource σ]

/-- Whether a recogniser that is entered in a state calls another in a state: what the second does
there, and nowhere else, makes a difference for what the first does. -/
def Calls (context : PassContext) (caller callee : Visit σ) : Prop :=
  ∃ given : Recognisers σ,
    (∀ other : Visit σ, other ≠ callee → (given other.recogniser).run context other.state =
      (Recognisers.outermost other.recogniser).run context other.state) ∧
    (given.body caller.recogniser).run context caller.state ≠
      (Recognisers.outermost.body caller.recogniser).run context caller.state

variable {context : PassContext} {caller callee : Visit σ}

/-- What a body does depends on the recognisers at lower visits alone. -/
theorem run_body_congr {given : Recognisers σ}
    (same : ∀ callee : Visit σ, callee.Below caller →
      (given callee.recogniser).run context callee.state =
        (Recognisers.outermost callee.recogniser).run context callee.state) :
    (given.body caller.recogniser).run context caller.state =
      (Recognisers.outermost.body caller.recogniser).run context caller.state := by
  have bounds {limit : Nat} : PassContext.SameBelow limit context context := .refl context
  have each {limit : Nat} (recogniser : Recogniser)
      (below : ∀ state : PassState σ, state.left < limit → Below ⟨recogniser, state⟩ caller) :
      Pass.Alike context context limit (Recognisers.outermost recogniser) (given recogniser)
        fun _ => recogniser.least := by
    intro state few
    refine ⟨(same ⟨recogniser, state⟩ (below state few)).symm, ?_⟩
    exact (Recognisers.alike_outermost bounds recogniser few).2
  have alike : Pass.Alike context context (caller.state.left + 1)
      (Recognisers.outermost.body caller.recogniser) (given.body caller.recogniser)
      fun _ => caller.recogniser.least := by
    refine Recognisers.alike_body bounds (fun callee => each callee fun _ => .inl) ?_
    refine fun callee lower => each callee fun state few => ?_
    exact (Nat.lt_or_eq_of_le (Nat.le_of_lt_succ few)).imp_right fun asMany => ⟨asMany, lower⟩
  exact (alike (Nat.lt_succ_self _)).1.symm

/-- Calls lead to lower visits. -/
theorem Calls.below (calls : Calls context caller callee) : callee.Below caller := by
  obtain ⟨given, same, differs⟩ := calls
  refine Classical.byContradiction fun notBelow => ?_
  refine differs (run_body_congr fun other lower => same other ?_)
  rintro rfl
  exact notBelow lower

/-- What calls lead to, one after another, is below. -/
theorem below_of_transGen (calls : Relation.TransGen (Calls context) caller callee) :
    callee.Below caller := by
  induction calls with
  | single call => exact call.below
  | tail _ call inductionHypothesis => exact call.below.trans inductionHypothesis

/-- A chain of calls is no longer than the number of tokens left allows. -/
theorem length_le_of_chain {callees : List (Visit σ)}
    (chain : List.IsChain (Calls context) (caller :: callees)) :
    callees.length ≤ caller.height := by
  induction callees generalizing caller with
  | nil => exact Nat.zero_le _
  | cons callee callees inductionHypothesis =>
      obtain ⟨call, others⟩ := List.isChain_cons_cons.1 chain
      exact Nat.succ_le_of_lt
        (Nat.lt_of_le_of_lt (inductionHypothesis others) call.below.height_lt)

/-! ## Calls with as many tokens left -/

open Classical in
/-- The recognisers as they are, but that the pass stops at one visit. -/
noncomputable def stopAt (callee : Visit σ) (reason : Halt) : Recognisers σ :=
  fun recogniser given state =>
    if (⟨recogniser, state⟩ : Visit σ) = callee then .halted reason state
    else (Recognisers.outermost recogniser).run given state

theorem run_stopAt (callee : Visit σ) (reason : Halt) (context : PassContext) :
    (stopAt callee reason callee.recogniser).run context callee.state =
      .halted reason callee.state :=
  if_pos rfl

/-- What stops with another recogniser, for whatever reason, has called it. -/
theorem calls_of_stops
    (stops : ∀ reason, ((stopAt callee reason).body caller.recogniser).run context caller.state =
      .halted reason callee.state) : Calls context caller callee := by
  have elsewhere (reason : Halt) (other : Visit σ) (apart : other ≠ callee) :
      (stopAt callee reason other.recogniser).run context other.state =
        (Recognisers.outermost other.recogniser).run context other.state := if_neg apart
  by_cases same : (Recognisers.outermost.body caller.recogniser).run context caller.state =
      .halted (.broken .boundExceeded) callee.state
  · refine ⟨stopAt callee (.broken .countOverflow), elsewhere _, ?_⟩
    rw [stops, same]
    exact nofun
  · refine ⟨stopAt callee (.broken .boundExceeded), elsewhere _, ?_⟩
    rw [stops]
    exact fun equal => same equal.symm

variable {state : PassState σ}

/-- An expression calls a term. -/
theorem expression_calls_term : Calls context ⟨.expression, state⟩ ⟨.term, state⟩ :=
  calls_of_stops fun reason => Pass.run_bind_of_halted (run_stopAt _ reason context)

/-- A list of arguments calls an expression unless it is empty. -/
theorem argumentList_calls_expression (rounds : 0 < context.bound)
    (opened : state.nextKind? ≠ some (.punctuation .rightParen)) :
    Calls context ⟨.argumentList, state⟩ ⟨.expression, state⟩ :=
  calls_of_stops fun reason =>
    Pass.run_expressionList_of_halted rounds opened (run_stopAt ⟨.expression, state⟩ reason context)

/-- A term calls a call where it begins like one, with its name unread again. -/
theorem term_calls_call {token next : Token} {others : List Token}
    (comes : state.stream.remaining = token :: next :: others) (isName : token.kind = .identifier)
    (opens : next.kind = .punctuation .leftParen ∨ next.kind = .punctuation .dot) :
    Calls context ⟨.term, state⟩ ⟨.call, state⟩ :=
  calls_of_stops fun reason =>
    (Pass.run_termVia_of_call comes isName opens).trans (run_stopAt ⟨.call, state⟩ reason context)

/-- Four recognisers are entered one from the other in front of the same token. -/
theorem isChain_of_call {token next : Token} {others : List Token} (rounds : 0 < context.bound)
    (comes : state.stream.remaining = token :: next :: others) (isName : token.kind = .identifier)
    (opens : next.kind = .punctuation .leftParen ∨ next.kind = .punctuation .dot) :
    List.IsChain (Calls context)
      [⟨.argumentList, state⟩, ⟨.expression, state⟩, ⟨.term, state⟩, ⟨.call, state⟩] := by
  have notClosed : state.nextKind? ≠ some (.punctuation .rightParen) := by
    have isNext : state.nextKind? = some token.kind := by
      simp [PassState.nextKind?, TokenStream.nextKind?, TokenStream.peek?, comes]
    simp [isNext, isName]
  simp only [List.isChain_cons_cons, List.IsChain.singleton, and_true]
  exact ⟨argumentList_calls_expression rounds notClosed, expression_calls_term,
    term_calls_call comes isName opens⟩

end Visit

namespace Recognisers

variable {σ : Type} [LabelSource σ] {context : PassContext}

/-- Recognisers that do what their bodies do are determined where the bound exceeds the number of
tokens left. The induction goes down with the calls. -/
theorem run_eq_of_solves {given : Recognisers σ}
    (solves : ∀ recogniser state, (given recogniser).run context state =
      (given.body recogniser).run context state)
    (visit : Visit σ) (enough : visit.state.left < context.bound) :
    (given visit.recogniser).run context visit.state =
      (outermost visit.recogniser).run context visit.state := by
  induction visit using Visit.wellFounded_below.induction with
  | _ caller inductionHypothesis =>
      have body : (given.body caller.recogniser).run context caller.state =
          (outermost.body caller.recogniser).run context caller.state := by
        refine Visit.run_body_congr fun callee lower => inductionHypothesis callee lower ?_
        unfold Visit.Below at lower
        omega
      rw [solves, body]
      exact (alike_body_outermost caller.recogniser enough).1

end Recognisers

end JackCompiler
