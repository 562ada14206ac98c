import JackCompiler.Diagnostic
import JackCompiler.Label
import JackCompiler.Symbol.Scope
import JackCompiler.Token.Stream

/-!
# The pass over a class

A class is compiled in one pass over its tokens. Each construct is recognised by reading its tokens
in order, and yields its code at once. This module holds what the pass carries along, the ways in
which it can stop, and how parts of it follow one another. A pass that stops keeps what it carried
along until then, so labels that were drawn stay drawn.
-/

namespace JackCompiler

/-- Why a pass breaks off without a verdict on the source. -/
inductive Breakdown
  /-- No label was left to draw. -/
  | labelsExhausted
  /-- A span does not cut the source at its characters. -/
  | spanOutsideText
  /-- A string constant is too long for the runtime library. -/
  | stringTooLong
  /-- A token was to be unread before any was read. -/
  | nothingToUnread
  /-- A count of locals that the symbol table accepted left its 16-bit word. -/
  | countOverflow
  /-- Loops or nesting went beyond the number of tokens. -/
  | boundExceeded
  deriving DecidableEq

/-- Why a pass stops before its end. -/
inductive Halt
  /-- The source is not a class that can be compiled. -/
  | rejected (cause : Located ErrorKind)
  | broken (breakdown : Breakdown)
  deriving DecidableEq

/-- What stays fixed during a pass. -/
structure PassContext where
  /-- The source the tokens were read from. -/
  source : String
  /-- How many rounds a loop and how many levels a nesting may have. -/
  bound : Nat

/-- What a pass carries along. -/
structure PassState (σ : Type) where
  stream : TokenStream
  labels : σ
  scope : Scope
  /-- The name of the class, empty until it is read. -/
  className : String

/-- How a part of the pass ends, with what is carried on from there. -/
inductive PassResult (σ α : Type)
  | done (value : α) (state : PassState σ)
  | halted (reason : Halt) (state : PassState σ)

/-- A part of the pass, which yields a value unless it stops. -/
def Pass (σ α : Type) : Type := PassContext → PassState σ → PassResult σ α

namespace Pass

variable {σ α β : Type}

/-- Runs a part of the pass. -/
@[inline] def run (part : Pass σ α) (context : PassContext) (state : PassState σ) :
    PassResult σ α :=
  part context state

/-- Two parts of the pass are the same if they run in the same way. -/
@[ext] theorem ext {left right : Pass σ α}
    (same : ∀ context state, left.run context state = right.run context state) : left = right :=
  funext fun context => funext fun state => same context state

/-- Parts follow one another; what comes after a part that stops does not run. -/
@[always_inline] instance : Monad (Pass σ) where
  pure value := fun _ state => .done value state
  bind part next := fun context state =>
    match part context state with
    | .done value state => next value context state
    | .halted reason state => .halted reason state

@[simp] theorem run_pure (value : α) (context : PassContext) (state : PassState σ) :
    (pure value : Pass σ α).run context state = .done value state := rfl

/-- Running two parts one after another is running the second one from where the first one is
done. -/
theorem run_bind (part : Pass σ α) (next : α → Pass σ β) (context : PassContext)
    (state : PassState σ) :
    (part >>= next).run context state =
      match part.run context state with
      | .done value state => (next value).run context state
      | .halted reason state => .halted reason state := rfl

@[simp] theorem run_map (apply : α → β) (part : Pass σ α) (context : PassContext)
    (state : PassState σ) :
    (apply <$> part).run context state =
      match part.run context state with
      | .done value state => .done (apply value) state
      | .halted reason state => .halted reason state := rfl

/-- Behind a part that is done the next one is run. -/
theorem run_bind_of_done {part : Pass σ α} {next : α → Pass σ β} {context : PassContext}
    {before state : PassState σ} {value : α}
    (finished : part.run context before = .done value state) :
    (part >>= next).run context before = (next value).run context state := by
  rw [run_bind, finished]

/-- Behind a part that halted nothing is run. -/
theorem run_bind_of_halted {part : Pass σ α} {next : α → Pass σ β} {context : PassContext}
    {before state : PassState σ} {reason : Halt}
    (stopped : part.run context before = .halted reason state) :
    (part >>= next).run context before = .halted reason state := by
  rw [run_bind, stopped]

private theorem bind_pure_self (part : Pass σ α) :
    (part >>= fun value => pure value) = part := by
  ext context state
  rw [run_bind]
  cases part.run context state <;> rfl

private theorem bind_bind {γ : Type} (part : Pass σ α) (next : α → Pass σ β)
    (last : β → Pass σ γ) :
    (part >>= next >>= last) = (part >>= fun value => next value >>= last) := by
  ext context state
  simp only [run_bind]
  cases part.run context state <;> rfl

/-- The order in which three parts are joined is of no matter. -/
instance : LawfulMonad (Pass σ) :=
  LawfulMonad.mk' (Pass σ) bind_pure_self (fun _ _ => rfl) bind_bind

/-- What stays fixed during the pass. -/
def context : Pass σ PassContext := fun context state => .done context state

/-- What the pass carries along. -/
def state : Pass σ (PassState σ) := fun _ state => .done state state

/-- Replaces what the pass carries along. -/
def setState (state : PassState σ) : Pass σ Unit := fun _ _ => .done () state

/-- Stops the pass. -/
def halt (reason : Halt) : Pass σ α := fun _ state => .halted reason state

@[simp] theorem run_context (given : PassContext) (current : PassState σ) :
    (context : Pass σ PassContext).run given current = .done given current := rfl

@[simp] theorem run_state (given : PassContext) (current : PassState σ) :
    (state : Pass σ (PassState σ)).run given current = .done current current := rfl

@[simp] theorem run_setState (given : PassContext) (current next : PassState σ) :
    (setState next).run given current = .done () next := rfl

@[simp] theorem run_halt (reason : Halt) (given : PassContext) (current : PassState σ) :
    (halt reason : Pass σ α).run given current = .halted reason current := rfl

/-- Stops the pass because of an error in the source. -/
def reject (span : Span) (kind : ErrorKind) : Pass σ α :=
  halt (.rejected (span.locate kind))

/-- Stops the pass because it cannot go on. -/
def breakOff (breakdown : Breakdown) : Pass σ α :=
  halt (.broken breakdown)

end Pass

end JackCompiler
