import JackCompiler.Proofs.Recognition.Steps

/-!
# Passes over two texts

A pass looks at a token only for its kind and for the text that is cut out of the source, and never
at its span but to locate an error. So a pass does the same over two texts whose tokens agree in
kinds and texts, wherever these tokens stand. A `Comparison` says how two texts agree, and
`Comparison.Concur` that two parts of a pass, each run over its own text, end in the same way.

The tokens left become fewer with every token that is read, which is why no loop and no nesting
comes to its bound; so what a part leaves over is counted along. Compared to itself, a text shows
how a pass over it can end at all.
-/

namespace JackCompiler

namespace TokenStream

variable {stream : TokenStream} {token : Token} {others : List Token}

/-- The first token of those left is read. -/
theorem next?_of_cons (shape : stream.remaining = token :: others) :
    stream.next? = some (token,
      { stream with consumed := token :: stream.consumed, remaining := others }) := by
  rw [next?, shape]

/-- The latest token is made unread again. -/
theorem pushback?_of_cons (shape : stream.consumed = token :: others) :
    stream.pushback? =
      some { stream with consumed := others, remaining := token :: stream.remaining } := by
  rw [pushback?, shape]

end TokenStream

/-- A source with the tokens that a pass over it is to read. -/
structure TokenText where
  source : String
  tokens : List Token
  /-- Where errors at the end of input are located. -/
  ending : Nat

namespace TokenText

/-- What stays fixed during a pass over a text. -/
def context (text : TokenText) : PassContext := ⟨text.source, text.tokens.length + 1⟩

/-- Whether a stream is over the tokens of a text, wherever its place is. -/
structure Streams (text : TokenText) (stream : TokenStream) : Prop where
  tokens : stream.tokens = text.tokens
  ending : stream.ending = text.ending

namespace Streams

variable {text : TokenText} {stream after : TokenStream} {token : Token}

/-- The next token is the one at the number of those that were read. -/
theorem peek? (streams : text.Streams stream) :
    stream.peek? = text.tokens[stream.consumed.length]? := by
  rw [← streams.tokens, TokenStream.tokens, TokenStream.peek?,
    List.getElem?_append_right (by simp), List.length_reverse, Nat.sub_self, List.head?_eq_getElem?]

/-- Together, what was read and what is left are the tokens of the text. -/
theorem length (streams : text.Streams stream) :
    stream.remaining.length + stream.consumed.length = text.tokens.length := by
  rw [← streams.tokens, TokenStream.tokens, List.length_append, List.length_reverse, Nat.add_comm]

/-- Reading a token stays in the text. -/
theorem next (streams : text.Streams stream) (read : stream.next? = some (token, after)) :
    text.Streams after := by
  refine ⟨(TokenStream.tokens_of_next? read).trans streams.tokens, ?_⟩
  exact (TokenStream.next?_eq_some_iff.1 read).2.2.trans streams.ending

/-- Making a token unread stays in the text. -/
theorem pushback (streams : text.Streams stream) (stepped : stream.pushback? = some after) :
    text.Streams after := by
  refine ⟨(TokenStream.tokens_of_pushback? stepped).trans streams.tokens, ?_⟩
  unfold TokenStream.pushback? at stepped
  split at stepped <;> cases stepped
  exact streams.ending

/-- The latest token is the one before that number. -/
theorem latest {earlier : List Token} (streams : text.Streams stream)
    (shape : stream.consumed = token :: earlier) : text.tokens[earlier.length]? = some token := by
  rw [← streams.tokens, TokenStream.tokens, shape, List.reverse_cons, List.append_assoc,
    List.getElem?_append_right (by simp), List.length_reverse, Nat.sub_self]
  rfl

end Streams

/-- Two tokens with the same place in two texts. -/
def Pairs (left right : TokenText) (token other : Token) : Prop :=
  ∃ index : Nat, left.tokens[index]? = some token ∧ right.tokens[index]? = some other

end TokenText

/-- Two texts with tokens that mean the same. The breakdowns that are tolerated are those that
passes over the texts may end in. -/
structure Comparison where
  left : TokenText
  right : TokenText
  Tolerates : Breakdown → Prop
  exhausted : Tolerates .labelsExhausted
  length_eq : left.tokens.length = right.tokens.length
  kind_eq : ∀ {token other}, left.Pairs right token other → token.kind = other.kind
  /-- Names and keywords are looked at in the source. -/
  text_eq : ∀ {token other}, left.Pairs right token other →
    (token.kind = .identifier ∨ ∃ word, token.kind = .keyword word) →
    token.text? left.source = other.text? right.source ∧
      (token.text? left.source = none → Tolerates .spanOutsideText)
  /-- So are string constants. -/
  contents_eq : ∀ {token other}, left.Pairs right token other → token.kind = .string →
    token.contents? left.source = other.contents? right.source ∧
      (token.contents? left.source = none → Tolerates .spanOutsideText) ∧
      ∀ contents, token.contents? left.source = some contents →
        Code.stringConstant? contents = none → Tolerates .stringTooLong

namespace Comparison

variable {σ α β : Type} {comparison : Comparison} {state state' : PassState σ}

/-- What two passes carry along when both are at the same place of their texts. -/
structure Level (comparison : Comparison) (state state' : PassState σ) : Prop where
  left : comparison.left.Streams state.stream
  right : comparison.right.Streams state'.stream
  place : state.stream.consumed.length = state'.stream.consumed.length
  scope : state.scope = state'.scope
  className : state.className = state'.className
  labels : state.labels = state'.labels

/-- Two passes stop for the same reason: for an error at tokens with the same place or at the ends of
the texts, or because both break off. -/
inductive Halts (comparison : Comparison) : Halt → Halt → Prop
  | atToken {token other : Token} (paired : comparison.left.Pairs comparison.right token other)
      (kind : ErrorKind) :
      Halts comparison (.rejected (token.span.locate kind)) (.rejected (other.span.locate kind))
  | atEnd (kind : ErrorKind) :
      Halts comparison (.rejected ((Span.emptyAt comparison.left.ending).locate kind))
        (.rejected ((Span.emptyAt comparison.right.ending).locate kind))
  | broken {breakdown : Breakdown} (tolerated : comparison.Tolerates breakdown) :
      Halts comparison (.broken breakdown) (.broken breakdown)

/-- How two parts of a pass end: both are done, with what is said of their values and of what the
first carries on, or both stop. -/
inductive Outcome (comparison : Comparison) (finished : α → α → PassState σ → Prop) :
    PassResult σ α → PassResult σ α → Prop
  | done {value value' : α} {after after' : PassState σ} (level : comparison.Level after after')
      (reached : finished value value' after) :
      Outcome comparison finished (.done value after) (.done value' after')
  | halted {reason reason' : Halt} {after after' : PassState σ}
      (alike : comparison.Halts reason reason') (labels : after.labels = after'.labels) :
      Outcome comparison finished (.halted reason after) (.halted reason' after')

/-- Two parts of a pass end in the same way when they are run from two states. -/
def Concur (comparison : Comparison) (part part' : Pass σ α) (state state' : PassState σ)
    (finished : α → α → PassState σ → Prop) : Prop :=
  comparison.Outcome finished (part.run comparison.left.context state)
    (part'.run comparison.right.context state')

/-- Passes over texts with as many tokens have the same bound. -/
theorem context_bound (comparison : Comparison) :
    comparison.right.context.bound = comparison.left.context.bound :=
  congrArg Nat.succ comparison.length_eq.symm

/-! ## Places -/

namespace Level

/-- No more tokens are left than the text has. -/
theorem left_le (level : comparison.Level state state') :
    state.left ≤ comparison.left.tokens.length := by
  have length := level.left.length
  simp only [PassState.left]
  omega

/-- The next tokens have the same place. -/
theorem peek? (level : comparison.Level state state') :
    (state.stream.peek? = none ∧ state'.stream.peek? = none) ∨
      ∃ token other, state.stream.peek? = some token ∧ state'.stream.peek? = some other ∧
        comparison.left.Pairs comparison.right token other := by
  rw [level.left.peek?, level.right.peek?, ← level.place]
  generalize state.stream.consumed.length = place
  have same := comparison.length_eq
  rcases Nat.lt_or_ge place comparison.left.tokens.length with inside | outside
  · have inside' : place < comparison.right.tokens.length := by omega
    have found := List.getElem?_eq_getElem inside
    have found' := List.getElem?_eq_getElem inside'
    exact .inr ⟨_, _, found, found', place, found, found'⟩
  · exact .inl ⟨List.getElem?_eq_none outside, List.getElem?_eq_none (by omega)⟩

/-- They can be read together. -/
theorem next? (level : comparison.Level state state') :
    (state.stream.next? = none ∧ state'.stream.next? = none) ∨
      ∃ token stream other stream', state.stream.next? = some (token, stream) ∧
        state'.stream.next? = some (other, stream') ∧
        comparison.left.Pairs comparison.right token other ∧
        comparison.Level { state with stream } { state' with stream := stream' } := by
  rcases level.peek? with ⟨none, none'⟩ | ⟨token, other, some, some', paired⟩
  · rw [TokenStream.peek?, List.head?_eq_none_iff] at none none'
    exact .inl ⟨by rw [TokenStream.next?, none], by rw [TokenStream.next?, none']⟩
  · obtain ⟨_, shape⟩ := List.head?_eq_some_iff.1 some
    obtain ⟨_, shape'⟩ := List.head?_eq_some_iff.1 some'
    have read := TokenStream.next?_of_cons shape
    have read' := TokenStream.next?_of_cons shape'
    refine .inr ⟨token, _, other, _, read, read', paired, level.left.next read,
      level.right.next read', ?_, level.scope, level.className, level.labels⟩
    exact congrArg Nat.succ level.place

/-- Once a token was read, the latest tokens have the same place. -/
theorem latest (level : comparison.Level state state')
    (begun : state.left < comparison.left.tokens.length) :
    ∃ token earlier other earlier', state.stream.consumed = token :: earlier ∧
      state'.stream.consumed = other :: earlier' ∧
      comparison.left.Pairs comparison.right token other := by
  have length := level.left.length
  have place := level.place
  simp only [PassState.left] at begun
  cases shape : state.stream.consumed with
  | nil =>
      rw [shape] at length
      simp only [List.length_nil] at length
      omega
  | cons token earlier =>
      cases shape' : state'.stream.consumed with
      | nil =>
          rw [shape, shape'] at place
          cases place
      | cons other earlier' =>
          rw [shape, shape', List.length_cons, List.length_cons, Nat.succ_inj] at place
          exact ⟨token, earlier, other, earlier', rfl, rfl, earlier.length,
            level.left.latest shape, place ▸ level.right.latest shape'⟩

end Level

/-! ## Parts that follow one another -/

section Following

variable {part part' : Pass σ α} {next next' : α → Pass σ β}
  {between finished : α → α → PassState σ → Prop} {settled : β → β → PassState σ → Prop}

/-- Related values concur. -/
theorem concur_pure {value value' : α} (level : comparison.Level state state')
    (reached : finished value value' state) :
    comparison.Concur (pure value) (pure value') state state' finished :=
  .done level reached

/-- Breaking off concurs where it is tolerated. -/
theorem concur_breakOff {breakdown : Breakdown} (level : comparison.Level state state')
    (tolerated : comparison.Tolerates breakdown) :
    comparison.Concur (Pass.breakOff breakdown) (Pass.breakOff breakdown) state state' finished :=
  .halted (.broken tolerated) level.labels

/-- Errors at paired tokens concur. -/
theorem concur_reject {token other : Token} (level : comparison.Level state state')
    (paired : comparison.left.Pairs comparison.right token other) (kind : ErrorKind) :
    comparison.Concur (Pass.reject token.span kind) (Pass.reject other.span kind) state state'
      finished :=
  .halted (.atToken paired kind) level.labels

/-- Parts that concur go on to concur with what follows them. -/
theorem Concur.bind (first : comparison.Concur part part' state state' between)
    (second : ∀ {value value' middle middle'}, comparison.Level middle middle' →
      between value value' middle →
      comparison.Concur (next value) (next' value') middle middle' settled) :
    comparison.Concur (part >>= next) (part' >>= next') state state' settled := by
  unfold Concur at *
  rw [Pass.run_bind, Pass.run_bind]
  generalize part.run comparison.left.context state = result at first
  generalize part'.run comparison.right.context state' = result' at first
  cases first with
  | done level reached => exact second level reached
  | halted alike labels => exact .halted alike labels

/-- Parts that concur in detail concur in less detail. -/
theorem Concur.mono (concur : comparison.Concur part part' state state' between)
    (weaker : ∀ {value value' after}, between value value' after → finished value value' after) :
    comparison.Concur part part' state state' finished := by
  unfold Concur at *
  generalize part.run comparison.left.context state = result at concur
  generalize part'.run comparison.right.context state' = result' at concur
  cases concur with
  | done level reached => exact .done level (weaker reached)
  | halted alike labels => exact .halted alike labels

/-- A loop whose rounds read tokens does not come to its bound. What holds before a round holds
before the next one; the induction is on the rounds that are left, more than the tokens left. -/
theorem concur_iterateFor {step step' : α → Pass σ (α ⊕ β)} {holds : α → PassState σ → Prop}
    {last : β → PassState σ → Prop}
    (each : ∀ {value state state'}, comparison.Level state state' → holds value state →
      comparison.Concur (step value) (step' value) state state' fun outcome outcome' after =>
        outcome = outcome' ∧ Sum.elim (fun next => after.left < state.left ∧ holds next after)
          (fun result => last result after) outcome)
    {rounds : Nat} {value : α} (enough : state.left < rounds)
    (level : comparison.Level state state') (start : holds value state) :
    comparison.Concur (Pass.iterateFor step rounds value) (Pass.iterateFor step' rounds value)
      state state' fun result result' after => result = result' ∧ last result after := by
  induction rounds generalizing value state state' with
  | zero => exact absurd enough (Nat.not_lt_zero _)
  | succ rounds inductionHypothesis =>
      refine (each level start).bind ?_
      rintro outcome _ middle middle' level ⟨rfl, went⟩
      cases outcome with
      | inl next => exact inductionHypothesis (by have := went.1; omega) level went.2
      | inr result => exact concur_pure level ⟨rfl, went⟩

/-- Loops concur whose steps do and read a token whenever they go on. -/
theorem concur_iterate {step step' : α → Pass σ (α ⊕ β)} (holds : α → PassState σ → Prop)
    {last : β → PassState σ → Prop}
    (each : ∀ {value state state'}, comparison.Level state state' → holds value state →
      comparison.Concur (step value) (step' value) state state' fun outcome outcome' after =>
        outcome = outcome' ∧ Sum.elim (fun next => after.left < state.left ∧ holds next after)
          (fun result => last result after) outcome)
    {value : α} (level : comparison.Level state state') (start : holds value state) :
    comparison.Concur (Pass.iterate step value) (Pass.iterate step' value)
      state state' fun result result' after => result = result' ∧ last result after := by
  unfold Concur
  rw [Pass.run_iterate, Pass.run_iterate, context_bound]
  exact concur_iterateFor each (Nat.lt_succ_of_le level.left_le) level start

end Following

end Comparison

end JackCompiler
