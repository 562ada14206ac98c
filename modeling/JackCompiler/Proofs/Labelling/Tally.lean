import JackCompiler.Compilation.Step
import JackCompiler.Proofs.Generation.Numbering

/-!
# Passes with labels of different sources

A pass looks at no label: it puts labels into code, and code is not looked at either. So it does
the same with the labels of every source, for as long as the source has labels. To say so, each
source is compared to a tally, which hands out blank labels without end and counts them. A part of
the pass that is run on a tally tells how many labels are wanted; run on another source it draws as
many, or breaks off where the source ends.

The two runs are followed side by side. `Pass.Follows` says that they agree, and besides that a
tally never goes back, which is what remains to be known of the first run once the second broke off.
-/

namespace JackCompiler

/-- A source of blank labels that counts those that were drawn. It does not run out. -/
structure Tally where
  count : Nat := 0
  deriving DecidableEq

/-- A tally always has another blank label. -/
instance : LabelSource Tally := ⟨fun tally => some (⟨0⟩, ⟨tally.count + 1⟩)⟩

namespace LabelSource

variable {σ : Type} [LabelSource σ] {labels after : σ}

/-- A source that has come to its end stays there. -/
theorem drawn?_eq_none {fewer more : Nat} (ended : drawn? labels fewer = none)
    (order : fewer ≤ more) : drawn? labels more = none := by
  induction order with
  | refl => exact ended
  | step _ inductionHypothesis => rw [drawn?, inductionHypothesis, Option.bind_none]

/-- Draws go on where others ended. -/
theorem drawn?_add (labels : σ) (before behind : Nat) :
    drawn? labels (before + behind) =
      (drawn? labels before).bind fun left => drawn? left behind := by
  induction behind with
  | zero => simp [drawn?]
  | succ behind inductionHypothesis =>
      rw [← Nat.add_assoc, drawn?, inductionHypothesis, Option.bind_assoc]
      rfl

/-- Draws are counted one by one. -/
theorem drawn?_succ {number : Nat} {label : Label} {left : σ}
    (before : drawn? labels number = some left) (drawn : draw? left = some (label, after)) :
    drawn? labels (number + 1) = some after := by
  rw [drawn?, before, Option.bind_some, drawn, Option.map_some]

/-- Where no label is left, one more draw is too many. -/
theorem drawn?_succ_eq_none {number : Nat} {left : σ} (before : drawn? labels number = some left)
    (empty : draw? left = none) : drawn? labels (number + 1) = none := by
  rw [drawn?, before, Option.bind_some, empty, Option.map_none]

end LabelSource

/-- What is carried on from the end of a part of the pass. -/
def PassResult.state {σ α : Type} : PassResult σ α → PassState σ
  | .done _ state | .halted _ state => state

section Tallies

variable {τ α β γ δ : Type} [LabelSource τ] {first : τ}

/-- What a pass carries along on a tally and on a source, when the tally has counted what was drawn
from the source. -/
structure Abreast (first : τ) (tallied : PassState Tally) (state : PassState τ) : Prop where
  stream : tallied.stream = state.stream
  scope : tallied.scope = state.scope
  className : tallied.className = state.className
  labels : LabelSource.drawn? first tallied.labels.count = some state.labels

/-- How a part of the pass ends on a tally and on a source. Of values only a view is compared, which
leaves out code and labels. -/
inductive Agrees (first : τ) (view : α → γ) : PassResult Tally α → PassResult τ α → Prop
  | done {left right : α} {tallied : PassState Tally} {state : PassState τ}
      (same : view left = view right) (abreast : Abreast first tallied state) :
      Agrees first view (.done left tallied) (.done right state)
  | halted {reason : Halt} {tallied : PassState Tally} {state : PassState τ}
      (other : reason ≠ .broken .labelsExhausted)
      (labels : LabelSource.drawn? first tallied.labels.count = some state.labels) :
      Agrees first view (.halted reason tallied) (.halted reason state)
  /-- The source has ended, and the tally went past that end. -/
  | exhausted {result : PassResult Tally α} {state : PassState τ} {number : Nat}
      (reached : LabelSource.drawn? first number = some state.labels)
      (empty : LabelSource.draw? state.labels = none)
      (past : LabelSource.drawn? first result.state.labels.count = none) :
      Agrees first view result (.halted (.broken .labelsExhausted) state)

/-- A part of the pass on a tally, and the same part on a source. -/
structure Pass.Follows (first : τ) (view : α → γ) (tallied : Pass Tally α) (part : Pass τ α) :
    Prop where
  /-- The tally never goes back. -/
  onwards : ∀ context state, state.labels.count ≤ (tallied.run context state).state.labels.count
  agrees : ∀ context {before : PassState Tally} {start : PassState τ},
    Abreast first before start → Agrees first view (tallied.run context before)
      (part.run context start)

namespace Pass

variable {view : α → γ} {behind : β → δ} {tallied : Pass Tally α} {part : Pass τ α}

/-! ## Parts that follow one another -/

/-- Values that look the same follow each other. -/
theorem follows_pure {left right : α} (same : view left = view right) :
    Follows first view (pure left) (pure right) where
  onwards _ _ := Nat.le_refl _
  agrees _ _ _ abreast := .done same abreast

/-- Halts follow each other, unless it is the labels that have run out. -/
theorem follows_halt (reason : Halt) (other : reason ≠ .broken .labelsExhausted) :
    Follows first view (halt reason) (halt reason) where
  onwards _ _ := Nat.le_refl _
  agrees _ _ _ abreast := .halted other abreast.labels

/-- Parts that follow each other go on to parts that do for values that look the same. -/
theorem Follows.bind {next : α → Pass Tally β} {next' : α → Pass τ β}
    (one : Follows first view tallied part)
    (two : ∀ left right, view left = view right → Follows first behind (next left) (next' right)) :
    Follows first behind (tallied >>= next) (part >>= next') where
  onwards context state := by
    have onwards := one.onwards context state
    rw [run_bind]
    cases outcome : tallied.run context state with
    | done value middle =>
        rw [outcome] at onwards
        exact Nat.le_trans onwards ((two value value rfl).onwards context middle)
    | halted reason middle =>
        rw [outcome] at onwards
        exact onwards
  agrees context before start abreast := by
    have agrees := one.agrees context abreast
    rw [run_bind, run_bind]
    generalize tallied.run context before = result at agrees
    generalize part.run context start = result' at agrees
    cases agrees with
    | done same abreast => exact (two _ _ same).agrees context abreast
    | halted other labels => exact .halted other labels
    | exhausted reached empty past =>
        refine .exhausted reached empty ?_
        cases result with
        | done value middle =>
            exact LabelSource.drawn?_eq_none past ((two value value rfl).onwards context middle)
        | halted reason middle => exact past

/-- The continuation of a part whose value holds neither code nor labels. -/
theorem Follows.bindSame {tallied : Pass Tally α} {part : Pass τ α} {next : α → Pass Tally β}
    {next' : α → Pass τ β} (one : Follows first id tallied part)
    (two : ∀ value, Follows first behind (next value) (next' value)) :
    Follows first behind (tallied >>= next) (part >>= next') := by
  refine one.bind ?_
  rintro left right same
  cases same
  exact two left

/-- What comes from the context is the same for both. -/
theorem follows_context {next : PassContext → Pass Tally α} {next' : PassContext → Pass τ α}
    (each : ∀ context, Follows first view (next context) (next' context)) :
    Follows first view (context >>= next) (context >>= next') where
  onwards given state := (each given).onwards given state
  agrees given _ _ abreast := (each given).agrees given abreast

/-- What comes from the state is the same for both, but for the labels. -/
theorem follows_state {next : PassState Tally → Pass Tally α} {next' : PassState τ → Pass τ α}
    (onwards : ∀ context before, before.labels.count ≤
      ((next before).run context before).state.labels.count)
    (each : ∀ context {before : PassState Tally} {start : PassState τ}, Abreast first before start →
      Agrees first view ((next before).run context before) ((next' start).run context start)) :
    Follows first view (state >>= next) (state >>= next') where
  onwards := onwards
  agrees context _ _ abreast := each context abreast

/-! ## Loops -/

/-- Loops follow each other round by round, for as many rounds. -/
theorem follows_iterateFor {step : α → Pass Tally (α ⊕ β)} {step' : α → Pass τ (α ⊕ β)}
    (each : ∀ left right, view left = view right →
      Follows first (Sum.map view behind) (step left) (step' right)) (rounds : Nat) :
    ∀ left right, view left = view right →
      Follows first behind (iterateFor step rounds left) (iterateFor step' rounds right) := by
  induction rounds with
  | zero => exact fun _ _ _ => follows_halt _ nofun
  | succ rounds inductionHypothesis =>
      intro left right same
      refine (each left right same).bind ?_
      rintro (next | result) (next' | result') same
      · exact inductionHypothesis next next' (Sum.inl.inj same)
      · cases same
      · cases same
      · exact follows_pure (Sum.inr.inj same)

/-- Loops follow each other whose steps do for values that look the same. -/
theorem follows_iterate (view : α → γ) {step : α → Pass Tally (α ⊕ β)} {step' : α → Pass τ (α ⊕ β)}
    (each : ∀ left right, view left = view right →
      Follows first (Sum.map view behind) (step left) (step' right)) {left right : α}
    (same : view left = view right) :
    Follows first behind (iterate step left) (iterate step' right) :=
  follows_context fun context => follows_iterateFor each context.bound left right same

/-! ## Tokens -/

/-- A rejection follows the same rejection. -/
theorem follows_reject (span : Span) (kind : ErrorKind) :
    Follows first view (reject span kind) (reject span kind) :=
  follows_halt _ nofun

/-- Breaking off follows breaking off, unless it is for labels. -/
theorem follows_breakOff {breakdown : Breakdown} (other : breakdown ≠ .labelsExhausted) :
    Follows first view (breakOff breakdown) (breakOff breakdown) :=
  follows_halt _ fun same => other (Halt.broken.inj same)

/-- Reading a token looks at no label. -/
theorem follows_advance : Follows first id advance advance := by
  refine follows_state ?_ ?_
  · intro context before
    cases before.stream.next? <;> exact Nat.le_refl _
  · rintro context before start ⟨stream, scope, className, labels⟩
    rw [stream]
    cases start.stream.next? with
    | some next => exact .done rfl ⟨rfl, scope, className, labels⟩
    | none => exact .halted nofun labels

/-- The number of unread tokens is the same. -/
theorem follows_unread : Follows first id unread unread := by
  refine follows_state ?_ ?_
  · intro context before
    cases before.stream.pushback? <;> exact Nat.le_refl _
  · rintro context before start ⟨stream, scope, className, labels⟩
    rw [stream]
    cases start.stream.pushback? with
    | some stream => exact .done rfl ⟨rfl, scope, className, labels⟩
    | none => exact .halted nofun labels

/-- Looking at the next token looks at no label. -/
theorem follows_peek? : Follows first id peek? peek? := by
  refine follows_state (fun _ _ => Nat.le_refl _) ?_
  rintro context before start ⟨stream, scope, className, labels⟩
  rw [stream]
  exact .done rfl ⟨stream, scope, className, labels⟩

/-- Asking about the next kind looks at no label. -/
theorem follows_nextSatisfies (condition : Token.Kind → Bool) :
    Follows first id (nextSatisfies condition) (nextSatisfies condition) := by
  refine follows_peek?.bindSame ?_
  rintro (_ | token)
  · exact follows_pure rfl
  · exact follows_pure rfl

/-- Taking a kind looks at no label. -/
theorem follows_take (kind : Token.Kind) : Follows first id (take kind) (take kind) := by
  refine (follows_nextSatisfies _).bindSame ?_
  rintro (_ | _)
  · exact follows_pure rfl
  · exact follows_advance.bindSame fun _ => follows_pure rfl

/-- Loops as long as a condition holds follow each other if their parts do. -/
theorem follows_whileNext (view : α → γ) (condition : Token.Kind → Bool) {loop : α → Pass Tally α}
    {loop' : α → Pass τ α}
    (each : ∀ left right, view left = view right → Follows first view (loop left) (loop' right))
    {left right : α} (same : view left = view right) :
    Follows first view (whileNext condition loop left) (whileNext condition loop' right) := by
  refine follows_iterate view ?_ same
  intro left right same
  refine (follows_nextSatisfies condition).bindSame ?_
  rintro (_ | _)
  · exact follows_pure (congrArg Sum.inr same)
  · exact (each left right same).bind fun _ _ same => follows_pure (congrArg Sum.inl same)

/-- Separated items follow each other if they do one by one. -/
theorem follows_separated (view : α → γ) {item : α → Pass Tally α} {item' : α → Pass τ α}
    (each : ∀ left right, view left = view right → Follows first view (item left) (item' right))
    {left right : α} (same : view left = view right) :
    Follows first view (separated item left) (separated item' right) := by
  refine follows_iterate view ?_ same
  intro left right same
  refine (each left right same).bind ?_
  intro left right same
  refine (follows_take _).bindSame ?_
  rintro (_ | _)
  · exact follows_pure (congrArg Sum.inr same)
  · exact follows_pure (congrArg Sum.inl same)

/-- Expecting a kind looks at no label. -/
theorem follows_expect (kind : Token.Kind) : Follows first id (expect kind) (expect kind) := by
  refine follows_advance.bindSame ?_
  intro token
  by_cases expected : token.kind = kind
  · simp only [if_pos expected]
    exact follows_pure rfl
  · simp only [if_neg expected]
    exact follows_reject _ _

/-- Expecting a mark looks at no label. -/
theorem follows_expectMark (mark : Punctuation) :
    Follows first id (expectMark mark) (expectMark mark) :=
  (follows_expect _).bindSame fun _ => follows_pure rfl

/-- A mark that closes what was read before. -/
theorem follows_closed {mark : Punctuation} {left right : α} (same : view left = view right) :
    Follows first view (expectMark mark >>= fun _ => pure left)
      (expectMark mark >>= fun _ => pure right) :=
  (follows_expectMark mark).bindSame fun _ => follows_pure same

/-- Expecting one of some kinds looks at no label. -/
theorem follows_expectAny (kinds : List Token.Kind) :
    Follows first id (expectAny kinds) (expectAny kinds) := by
  refine follows_advance.bindSame ?_
  intro token
  cases kinds.contains token.kind
  · exact follows_reject _ _
  · exact follows_pure rfl

/-- Asking for a text that must be there looks at no label. -/
theorem follows_required (text? : Option String) :
    Follows first id (required text?) (required text?) := by
  cases text? with
  | some text => exact follows_pure rfl
  | none => exact follows_breakOff nofun

/-- Asking for the text of a token looks at no label. -/
theorem follows_textOf (token : Token) : Follows first id (textOf token) (textOf token) :=
  follows_context fun _ => follows_required _

/-- Reading a name looks at no label. -/
theorem follows_name : Follows first id name name :=
  (follows_expect _).bindSame follows_textOf

/-- Reading the name of a type looks at no label. -/
theorem follows_typeName : Follows first id typeName typeName :=
  (follows_expectAny _).bindSame follows_textOf

/-! ## Counts and names -/

/-- The error of counting is the same. -/
theorem follows_tooMany (items : Countable) :
    Follows first view (tooMany items) (tooMany items) := by
  refine follows_state (fun _ _ => Nat.le_refl _) ?_
  rintro context before start ⟨stream, scope, className, labels⟩
  rw [stream]
  exact .halted nofun labels

/-- Sums with a limit are the same. -/
theorem follows_sum (items : Countable) (left right : UInt16) :
    Follows first id (sum items left right) (sum items left right) := by
  unfold sum
  split
  · exact follows_pure rfl
  · exact follows_tooMany items

/-- Asking for the name of the class looks at no label. -/
theorem follows_className : Follows first id className className := by
  refine follows_state (fun _ _ => Nat.le_refl _) ?_
  rintro context before start ⟨stream, scope, className, labels⟩
  rw [className]
  exact .done rfl ⟨stream, scope, className, labels⟩

/-- Looking a name up looks at no label. -/
theorem follows_lookup? (name : String) : Follows first id (lookup? name) (lookup? name) := by
  refine follows_state (fun _ _ => Nat.le_refl _) ?_
  rintro context before start ⟨stream, scope, className, labels⟩
  rw [scope]
  exact .done rfl ⟨stream, scope, className, labels⟩

/-- Resolving a name looks at no label. -/
theorem follows_resolve (token : Token) : Follows first id (resolve token) (resolve token) := by
  refine (follows_textOf token).bindSame ?_
  intro name
  refine (follows_lookup? name).bindSame ?_
  rintro (_ | found)
  · exact follows_reject _ _
  · exact follows_pure rfl

/-- Declaring a variable of a class looks at no label. -/
theorem follows_defineInClass (name type : String) (storage : ClassStorage) :
    Follows first id (defineInClass name type storage) (defineInClass name type storage) := by
  refine follows_state ?_ ?_
  · intro context before
    cases before.scope.ofClass.define? name type storage <;> exact Nat.le_refl _
  · rintro context before start abreast
    obtain ⟨stream, scope, className, labels⟩ := abreast
    rw [scope]
    cases start.scope.ofClass.define? name type storage with
    | some defined => exact .done rfl ⟨stream, rfl, className, labels⟩
    | none => exact (follows_tooMany _).agrees context ⟨stream, scope, className, labels⟩

/-- Declaring a variable of a subroutine looks at no label. -/
theorem follows_defineInSubroutine (items : Countable) (name type : String)
    (storage : SubroutineStorage) :
    Follows first id (defineInSubroutine items name type storage)
      (defineInSubroutine items name type storage) := by
  refine follows_state ?_ ?_
  · intro context before
    cases before.scope.ofSubroutine.define? name type storage <;> exact Nat.le_refl _
  · rintro context before start ⟨stream, scope, className, labels⟩
    rw [scope]
    cases start.scope.ofSubroutine.define? name type storage with
    | some defined => exact .done rfl ⟨stream, rfl, className, labels⟩
    | none => exact (follows_tooMany _).agrees context ⟨stream, scope, className, labels⟩

/-- Opening a subroutine looks at no label. -/
theorem follows_openSubroutine : Follows first id openSubroutine openSubroutine := by
  refine follows_state (fun _ _ => Nat.le_refl _) ?_
  rintro context before start ⟨stream, scope, className, labels⟩
  rw [scope]
  exact .done rfl ⟨stream, rfl, className, labels⟩

/-! ## Labels -/

/-- This is where the source may end, and where a tally counts. -/
theorem follows_draw : Follows first (fun _ => ()) draw draw := by
  refine follows_state (fun _ before => Nat.le_succ before.labels.count) ?_
  rintro context before start ⟨stream, scope, className, labels⟩
  cases drawn : LabelSource.draw? start.labels with
  | some next =>
      exact .done rfl ⟨stream, scope, className, LabelSource.drawn?_succ labels drawn⟩
  | none => exact .exhausted labels drawn (LabelSource.drawn?_succ_eq_none labels drawn)

end Pass

end Tallies

end JackCompiler
