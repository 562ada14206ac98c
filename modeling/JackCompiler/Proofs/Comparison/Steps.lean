import JackCompiler.Proofs.Comparison.Concur

/-!
# Steps of passes over two texts

The steps that recognisers are made of end in the same way over two texts. `Comparison.Moves` is
how this is said of most of them: run from any two states at the same place with few enough tokens
left, two parts concur, and at least so many tokens are read. That a token was read before is
presumed, for errors of counting are located at the latest one.
-/

namespace JackCompiler

namespace Comparison

variable {σ α β : Type} {comparison : Comparison} {state state' : PassState σ}

/-! ## Tokens -/

/-- A token that was read: its counterpart has the same place, one token fewer is left, and what
names stand for is as before. -/
structure Read (comparison : Comparison) (state : PassState σ) (token other : Token)
    (after : PassState σ) : Prop where
  paired : comparison.left.Pairs comparison.right token other
  left : after.left + 1 = state.left
  scope : after.scope = state.scope

/-- A value that was found: it is the same for both, the scope is as before, and at least so many
tokens were read. -/
structure Found (least : Nat) (state : PassState σ) (value value' : α) (after : PassState σ) :
    Prop where
  same : value = value'
  left : after.left + least ≤ state.left
  scope : after.scope = state.scope

/-- Tokens at the same place are read in both texts, or in neither. -/
theorem concur_advance (level : comparison.Level state state') :
    comparison.Concur Pass.advance Pass.advance state state' (comparison.Read state) := by
  rcases level.next? with ⟨none, none'⟩ |
    ⟨token, stream, other, stream', next, next', paired, reached⟩
  · unfold Concur Pass.advance
    rw [Pass.run_bind_of_done (Pass.run_state _ _), Pass.run_bind_of_done (Pass.run_state _ _),
      none, none', TokenStream.endSpan, TokenStream.endSpan, level.left.ending,
      level.right.ending]
    exact .halted (.atEnd _) level.labels
  · have read : Pass.advance.run comparison.left.context state =
        .done token { state with stream } := Pass.advance_eq_done_iff.2 ⟨next, rfl⟩
    have read' : Pass.advance.run comparison.right.context state' =
        .done other { state' with stream := stream' } := Pass.advance_eq_done_iff.2 ⟨next', rfl⟩
    have shape := (TokenStream.next?_eq_some_iff.1 next).1
    unfold Concur
    rw [read, read']
    exact .done reached ⟨paired, (congrArg List.length shape).symm, rfl⟩

/-- Once a token was read it can be made unread. -/
theorem concur_unread (level : comparison.Level state state')
    (begun : state.left < comparison.left.tokens.length) :
    comparison.Concur Pass.unread Pass.unread state state' fun _ _ after =>
      after.left = state.left + 1 := by
  obtain ⟨token, earlier, other, earlier', shape, shape', _⟩ := level.latest begun
  have stepped := TokenStream.pushback?_of_cons shape
  have stepped' := TokenStream.pushback?_of_cons shape'
  unfold Concur Pass.unread
  rw [Pass.run_bind_of_done (Pass.run_state _ _), Pass.run_bind_of_done (Pass.run_state _ _),
    stepped, stepped']
  have place := level.place
  rw [shape, shape', List.length_cons, List.length_cons, Nat.succ_inj] at place
  exact .done ⟨level.left.pushback stepped, level.right.pushback stepped', place, level.scope,
    level.className, level.labels⟩ rfl

/-- The tokens that come next at the same place are paired. -/
theorem concur_peek? (level : comparison.Level state state') :
    comparison.Concur Pass.peek? Pass.peek? state state' fun token? other? after =>
      Option.Rel (comparison.left.Pairs comparison.right) token? other? ∧ after = state := by
  unfold Concur
  rw [Pass.run_peek?, Pass.run_peek?]
  rcases level.peek? with ⟨none, none'⟩ | ⟨token, other, some, some', paired⟩
  · rw [none, none']
    exact .done level ⟨.none, rfl⟩
  · rw [some, some']
    exact .done level ⟨.some paired, rfl⟩

/-- At the same place the same kind comes next. -/
theorem nextKind?_eq (level : comparison.Level state state') :
    state.nextKind? = state'.nextKind? := by
  unfold PassState.nextKind? TokenStream.nextKind?
  rcases level.peek? with ⟨none, none'⟩ | ⟨token, other, some, some', paired⟩
  · rw [none, none']
  · rw [some, some', Option.map_some, Option.map_some, comparison.kind_eq paired]

/-- A condition holds of the next tokens of both texts or of neither. -/
theorem concur_nextSatisfies (level : comparison.Level state state')
    (condition : Token.Kind → Bool) :
    comparison.Concur (Pass.nextSatisfies condition) (Pass.nextSatisfies condition) state state'
      fun answer answer' after => answer = answer' ∧ after = state := by
  unfold Concur
  rw [Pass.run_nextSatisfies, Pass.run_nextSatisfies, ← nextKind?_eq level]
  exact .done level ⟨rfl, rfl⟩

/-- What was taken was read. -/
theorem concur_take (level : comparison.Level state state') (kind : Token.Kind) :
    comparison.Concur (Pass.take kind) (Pass.take kind) state state' fun answer answer' after =>
      Found (if answer then 1 else 0) state answer answer' after := by
  refine (concur_nextSatisfies level _).bind ?_
  rintro answer _ middle middle' reached ⟨rfl, rfl⟩
  cases answer with
  | false => exact concur_pure reached ⟨rfl, Nat.le_refl _, rfl⟩
  | true =>
      refine (concur_advance reached).bind fun reached read => concur_pure reached ?_
      exact ⟨rfl, Nat.le_of_eq read.left, read.scope⟩

/-- A kind is found in both texts or in neither. -/
theorem concur_expect (level : comparison.Level state state') (kind : Token.Kind) :
    comparison.Concur (Pass.expect kind) (Pass.expect kind) state state' fun token other after =>
      comparison.Read state token other after ∧ token.kind = kind := by
  refine (concur_advance level).bind ?_
  intro token other middle middle' level read
  rw [← comparison.kind_eq read.paired]
  split
  · next expected => exact concur_pure level ⟨read, expected⟩
  · exact concur_reject level read.paired _

/-- One of some kinds is found in both texts or in neither. -/
theorem concur_expectAny (level : comparison.Level state state') (kinds : List Token.Kind) :
    comparison.Concur (Pass.expectAny kinds) (Pass.expectAny kinds) state state'
      fun token other after => comparison.Read state token other after ∧ token.kind ∈ kinds := by
  refine (concur_advance level).bind ?_
  intro token other middle middle' level read
  rw [← comparison.kind_eq read.paired]
  split
  · next expected => exact concur_pure level ⟨read, List.contains_iff_mem.1 expected⟩
  · exact concur_reject level read.paired _

/-! ## Texts -/

/-- The same text is there, or missing in both texts where a missing one is tolerated. -/
theorem concur_required (level : comparison.Level state state') {text? text?' : Option String}
    (same : text? = text?') (found : text? = none → comparison.Tolerates .spanOutsideText) :
    comparison.Concur (Pass.required text?) (Pass.required text?') state state'
      fun text text' after => text = text' ∧ text? = some text ∧ after = state := by
  subst same
  cases text? with
  | none => exact concur_breakOff level (found rfl)
  | some text => exact concur_pure level ⟨rfl, rfl, rfl⟩

/-- Paired tokens that are names or reserved words have the same text. -/
theorem concur_textOf {token other : Token} (level : comparison.Level state state')
    (paired : comparison.left.Pairs comparison.right token other)
    (spoken : token.kind = .identifier ∨ ∃ word, token.kind = .keyword word) :
    comparison.Concur (Pass.textOf token) (Pass.textOf other) state state'
      (Found 0 state) := by
  obtain ⟨same, found⟩ := comparison.text_eq paired spoken
  refine (concur_required level same found).mono ?_
  rintro text _ after ⟨rfl, _, rfl⟩
  exact ⟨rfl, Nat.le_refl _, rfl⟩

/-- The same name is read in both texts. -/
theorem concur_name (level : comparison.Level state state') :
    comparison.Concur Pass.name Pass.name state state' (Found 1 state) := by
  refine (concur_expect level _).bind ?_
  rintro token other middle middle' level ⟨read, kind⟩
  refine (concur_textOf level read.paired (.inl kind)).mono ?_
  rintro text _ after ⟨rfl, left, scope⟩
  exact ⟨rfl, by have := read.left; omega, scope.trans read.scope⟩

/-- The name of the same type is read in both texts. -/
theorem concur_typeName (level : comparison.Level state state') :
    comparison.Concur Pass.typeName Pass.typeName state state' (Found 1 state) := by
  refine (concur_expectAny level _).bind ?_
  rintro token other middle middle' level ⟨read, member⟩
  have spoken : token.kind = .identifier ∨ ∃ word, token.kind = .keyword word := by
    simp only [Token.Kind.variableTypes, List.mem_cons, List.not_mem_nil, or_false] at member
    rcases member with kind | kind | kind | kind
    · exact .inr ⟨_, kind⟩
    · exact .inr ⟨_, kind⟩
    · exact .inr ⟨_, kind⟩
    · exact .inl kind
  refine (concur_textOf level read.paired spoken).mono ?_
  rintro text _ after ⟨rfl, left, scope⟩
  exact ⟨rfl, by have := read.left; omega, scope.trans read.scope⟩

/-! ## Parts that move on -/

/-- Run from any two states at the same place, two parts concur, their values are related, and at
least so many tokens are read. Some token was read before, and fewer than the limit are left. -/
def Moves (comparison : Comparison) (least limit : Nat) (related : α → α → Prop)
    (part part' : Pass σ α) : Prop :=
  ∀ ⦃state state' : PassState σ⦄, comparison.Level state state' →
    state.left < comparison.left.tokens.length → state.left < limit →
      comparison.Concur part part' state state' fun value value' after =>
        related value value' ∧ after.left + least ≤ state.left

section Moving

variable {least least' limit limit' : Nat} {related : α → α → Prop} {settled : β → β → Prop}
  {part part' : Pass σ α} {next next' : α → Pass σ β}

/-- Parts that move with more tokens left and read more of them move as well where less is asked. -/
theorem Moves.weaken (moves : comparison.Moves least limit related part part')
    (fewer : least' ≤ least) (inside : limit' ≤ limit) :
    comparison.Moves least' limit' related part part' := by
  intro state state' level begun below
  refine (moves level begun (Nat.lt_of_lt_of_le below inside)).mono ?_
  rintro value value' after ⟨same, went⟩
  exact ⟨same, by omega⟩

/-- Related values concur without reading. -/
theorem moves_pure {value value' : α} (same : related value value') :
    comparison.Moves (σ := σ) 0 limit related (pure value) (pure value') :=
  fun _ _ level _ _ => concur_pure level ⟨same, Nat.le_refl _⟩

/-- Parts that move go on to move with what follows them, whatever related values they hand over. -/
theorem Moves.bind (one : comparison.Moves least limit related part part')
    (two : ∀ value value', related value value' →
      comparison.Moves 0 limit settled (next value) (next' value')) :
    comparison.Moves 0 limit settled (part >>= next) (part' >>= next') := by
  intro state state' level begun below
  refine (one level begun below).bind ?_
  rintro value value' middle middle' reached ⟨same, went⟩
  refine (two value value' same reached (by omega) (by omega)).mono ?_
  rintro last last' after ⟨same, went'⟩
  exact ⟨same, by omega⟩

/-- Where the first of two parts reads a token, the second may have one token fewer left. -/
theorem Moves.inner (one : comparison.Moves 1 (limit + 1) related part part')
    (two : ∀ value value', related value value' →
      comparison.Moves 0 limit settled (next value) (next' value')) :
    comparison.Moves 1 (limit + 1) settled (part >>= next) (part' >>= next') := by
  intro state state' level begun below
  refine (one level begun below).bind ?_
  rintro value value' middle middle' reached ⟨same, went⟩
  refine (two value value' same reached (by omega) (by omega)).mono ?_
  rintro last last' after ⟨same, went'⟩
  exact ⟨same, by omega⟩

/-- A first part that reads a token lets those behind it read none. -/
theorem Moves.first (one : comparison.Moves 1 limit related part part')
    (two : ∀ value value', related value value' →
      comparison.Moves 0 limit settled (next value) (next' value')) :
    comparison.Moves 1 limit settled (part >>= next) (part' >>= next') := by
  cases limit with
  | zero => exact fun _ _ _ _ below => absurd below (Nat.not_lt_zero _)
  | succ limit =>
      exact one.inner fun value value' same =>
        (two value value' same).weaken (Nat.le_refl 0) (Nat.le_succ limit)

end Moving

section Same

variable {least limit : Nat} {settled : β → β → Prop} {part part' : Pass σ α}
  {next next' : α → Pass σ β}

/-- The continuation of a part with the same value for both. -/
theorem Moves.bindSame (one : comparison.Moves least limit Eq part part')
    (two : ∀ value, comparison.Moves 0 limit settled (next value) (next' value)) :
    comparison.Moves 0 limit settled (part >>= next) (part' >>= next') :=
  one.bind fun value _ same => same ▸ two value

/-- Behind a token that is read, the parts that follow need to move with one token fewer only. -/
theorem Moves.innerSame (one : comparison.Moves 1 (limit + 1) Eq part part')
    (two : ∀ value, comparison.Moves 0 limit settled (next value) (next' value)) :
    comparison.Moves 1 (limit + 1) settled (part >>= next) (part' >>= next') :=
  one.inner fun value _ same => same ▸ two value

/-- A first part that reads a token hands over a value that is the same in both texts. -/
theorem Moves.firstSame (one : comparison.Moves 1 limit Eq part part')
    (two : ∀ value, comparison.Moves 0 limit settled (next value) (next' value)) :
    comparison.Moves 1 limit settled (part >>= next) (part' >>= next') :=
  one.first fun value _ same => same ▸ two value

/-- Parts that find the same value in both texts move. -/
theorem Moves.of_found
    (concur : ∀ {state state'}, comparison.Level state state' →
      comparison.Concur part part' state state' (Found least state)) :
    comparison.Moves least limit Eq part part' :=
  fun _ _ level _ _ => (concur level).mono fun found => ⟨found.same, found.left⟩

end Same

section Steps

variable {limit : Nat} {related : α → α → Prop}

/-- Errors at paired tokens concur. -/
theorem moves_reject {token other : Token}
    (paired : comparison.left.Pairs comparison.right token other) (kind : ErrorKind) :
    comparison.Moves (σ := σ) 0 limit related (Pass.reject token.span kind)
      (Pass.reject other.span kind) :=
  fun _ _ level _ _ => concur_reject level paired kind

/-- Reading a token moves, and hands over tokens that are paired. -/
theorem moves_advance :
    comparison.Moves (σ := σ) 1 limit (comparison.left.Pairs comparison.right)
      Pass.advance Pass.advance :=
  fun _ _ level _ _ => (concur_advance level).mono fun read =>
    ⟨read.paired, Nat.le_of_eq read.left⟩

/-- Asking about the next kind moves. -/
theorem moves_nextSatisfies (condition : Token.Kind → Bool) :
    comparison.Moves (σ := σ) 0 limit Eq (Pass.nextSatisfies condition)
      (Pass.nextSatisfies condition) :=
  fun _ _ level _ _ => (concur_nextSatisfies level condition).mono fun found =>
    ⟨found.1, by rw [found.2]; exact Nat.le_refl _⟩

/-- Taking a kind moves. -/
theorem moves_take (kind : Token.Kind) :
    comparison.Moves (σ := σ) 0 limit Eq (Pass.take kind) (Pass.take kind) :=
  fun _ _ level _ _ => (concur_take level kind).mono fun found =>
    ⟨found.same, Nat.le_trans (Nat.le_add_right _ _) found.left⟩

/-- Expecting a kind moves, and hands over paired tokens of that kind. -/
theorem moves_expect (kind : Token.Kind) :
    comparison.Moves (σ := σ) 1 limit (fun token other =>
      comparison.left.Pairs comparison.right token other ∧ token.kind = kind)
      (Pass.expect kind) (Pass.expect kind) :=
  fun _ _ level _ _ => (concur_expect level kind).mono fun found =>
    ⟨⟨found.1.paired, found.2⟩, Nat.le_of_eq found.1.left⟩

/-- Expecting a mark moves. -/
theorem moves_expectMark (mark : Punctuation) :
    comparison.Moves (σ := σ) 1 limit Eq (Pass.expectMark mark) (Pass.expectMark mark) :=
  (moves_expect _).first fun _ _ _ => moves_pure rfl

/-- A mark that closes what was read before. -/
theorem moves_closed {mark : Punctuation} {value value' : α} (same : related value value') :
    comparison.Moves (σ := σ) 0 limit related (Pass.expectMark mark >>= fun _ => pure value)
      (Pass.expectMark mark >>= fun _ => pure value') :=
  (moves_expectMark mark).bindSame fun _ => moves_pure same

/-- Expecting one of some kinds moves, and hands over paired tokens of one of them. -/
theorem moves_expectAny (kinds : List Token.Kind) :
    comparison.Moves (σ := σ) 1 limit (fun token other =>
      comparison.left.Pairs comparison.right token other ∧ token.kind ∈ kinds)
      (Pass.expectAny kinds) (Pass.expectAny kinds) :=
  fun _ _ level _ _ => (concur_expectAny level kinds).mono fun found =>
    ⟨⟨found.1.paired, found.2⟩, Nat.le_of_eq found.1.left⟩

/-- Asking for the text of paired names or reserved words moves. -/
theorem moves_textOf {token other : Token}
    (paired : comparison.left.Pairs comparison.right token other)
    (spoken : token.kind = .identifier ∨ ∃ word, token.kind = .keyword word) :
    comparison.Moves (σ := σ) 0 limit Eq (Pass.textOf token) (Pass.textOf other) :=
  .of_found fun level => concur_textOf level paired spoken

/-- Reading a name moves. -/
theorem moves_name : comparison.Moves (σ := σ) 1 limit Eq Pass.name Pass.name :=
  .of_found concur_name

/-- Reading the name of a type moves. -/
theorem moves_typeName : comparison.Moves (σ := σ) 1 limit Eq Pass.typeName Pass.typeName :=
  .of_found concur_typeName

end Steps

/-! ## Loops -/

section Loops

variable {limit : Nat}

/-- Loops move whose parts do. -/
theorem moves_whileNext (condition : Token.Kind → Bool) {part part' : α → Pass σ α}
    (each : ∀ value, comparison.Moves 1 limit Eq (part value) (part' value)) (value : α) :
    comparison.Moves 0 limit Eq (Pass.whileNext condition part value)
      (Pass.whileNext condition part' value) := by
  intro state state' level begun below
  refine concur_iterate (fun _ now => now.left ≤ state.left) ?_ level (Nat.le_refl _)
  intro value now now' level notMore
  refine (concur_nextSatisfies level condition).bind ?_
  rintro answer _ middle middle' reached ⟨rfl, rfl⟩
  cases answer with
  | false => exact concur_pure reached ⟨rfl, notMore⟩
  | true =>
      refine (each value reached (by omega) (by omega)).bind ?_
      rintro next _ after after' reached ⟨rfl, went⟩
      exact concur_pure reached ⟨rfl, went, by show after.left ≤ _; omega⟩

/-- Items that keep a condition on what names stand for. -/
theorem concur_separated {item item' : α → Pass σ α} (holds : α → Scope → Prop)
    (each : ∀ {value now now'}, comparison.Level now now' → now.left ≤ state.left →
      holds value now.scope → comparison.Concur (item value) (item' value) now now'
        fun next next' after => next = next' ∧ after.left < now.left ∧ holds next after.scope)
    {value : α} (level : comparison.Level state state') (start : holds value state.scope) :
    comparison.Concur (Pass.separated item value) (Pass.separated item' value) state state'
      fun result result' after => result = result' ∧ after.left < state.left := by
  refine concur_iterate (fun value now => now.left ≤ state.left ∧ holds value now.scope) ?_
    level ⟨Nat.le_refl _, start⟩
  rintro value now now' level ⟨notMore, held⟩
  refine (each level notMore held).bind ?_
  rintro next _ middle middle' level ⟨rfl, went, held⟩
  refine (concur_take level _).bind ?_
  rintro answer _ after after' level ⟨rfl, left, scope⟩
  cases answer with
  | false => exact concur_pure level ⟨rfl, by show after.left < _; omega⟩
  | true =>
      refine concur_pure level ⟨rfl, ?_, ?_, scope ▸ held⟩
      · show after.left < _
        omega
      · show after.left ≤ _
        omega

/-- Separated items move if each item does. -/
theorem moves_separated {item item' : α → Pass σ α}
    (each : ∀ value, comparison.Moves 1 limit Eq (item value) (item' value)) (value : α) :
    comparison.Moves 1 limit Eq (Pass.separated item value) (Pass.separated item' value) := by
  intro state state' level begun below
  refine concur_separated (fun _ _ => True) ?_ level trivial
  intro value now now' level notMore _
  refine (each value level (by omega) (by omega)).mono ?_
  rintro next _ after ⟨rfl, went⟩
  exact ⟨rfl, went, trivial⟩

end Loops

/-! ## Counts and names -/

section Names

variable {limit : Nat}

/-- An error of counting is located at the latest token, so it concurs behind the same place. -/
theorem concur_tooMany {finished : α → α → PassState σ → Prop}
    (level : comparison.Level state state')
    (begun : state.left < comparison.left.tokens.length) (items : Countable) :
    comparison.Concur (Pass.tooMany items) (Pass.tooMany items) state state' finished := by
  obtain ⟨token, earlier, other, earlier', shape, shape', paired⟩ := level.latest begun
  unfold Concur Pass.tooMany
  rw [Pass.run_bind_of_done (Pass.run_state _ _), Pass.run_bind_of_done (Pass.run_state _ _),
    TokenStream.lastSpan, TokenStream.lastSpan, shape, shape']
  exact .halted (.atToken paired _) level.labels

/-- Sums with a limit move: both fit or neither does. -/
theorem moves_sum (items : Countable) (left right : UInt16) :
    comparison.Moves (σ := σ) 0 limit Eq (Pass.sum items left right)
      (Pass.sum items left right) := by
  unfold Pass.sum
  split
  · exact moves_pure rfl
  · exact fun _ _ level begun _ => concur_tooMany level begun items

/-- Asking for the name of the class moves. -/
theorem moves_className :
    comparison.Moves (σ := σ) 0 limit Eq Pass.className Pass.className := by
  intro state state' level _ _
  exact .done level ⟨level.className, Nat.le_refl _⟩

/-- Looking a name up moves. -/
theorem moves_lookup? (name : String) :
    comparison.Moves (σ := σ) 0 limit Eq (Pass.lookup? name) (Pass.lookup? name) := by
  intro state state' level _ _
  exact .done level ⟨congrArg (Scope.resolve? · name) level.scope, Nat.le_refl _⟩

/-- Resolving paired names moves: both have a place or neither has. -/
theorem moves_resolve {token other : Token}
    (paired : comparison.left.Pairs comparison.right token other)
    (kind : token.kind = .identifier) :
    comparison.Moves (σ := σ) 0 limit Eq (Pass.resolve token) (Pass.resolve other) := by
  refine (moves_textOf paired (.inl kind)).bindSame fun name => ?_
  refine (moves_lookup? name).bindSame ?_
  rintro (_ | found)
  · exact moves_reject paired _
  · exact moves_pure rfl

/-- Declaring a variable of a class moves: both are refused or neither is. -/
theorem moves_defineInClass (name type : String) (storage : ClassStorage) :
    comparison.Moves (σ := σ) 0 limit Eq (Pass.defineInClass name type storage)
      (Pass.defineInClass name type storage) := by
  intro state state' level begun _
  unfold Concur Pass.defineInClass
  rw [Pass.run_bind_of_done (Pass.run_state _ _), Pass.run_bind_of_done (Pass.run_state _ _),
    ← level.scope]
  cases state.scope.ofClass.define? name type storage with
  | none => exact concur_tooMany level begun _
  | some defined =>
      exact .done ⟨level.left, level.right, level.place, rfl, level.className, level.labels⟩
        ⟨rfl, Nat.le_refl _⟩

/-- What a definition in a subroutine leaves is the table that counts it. -/
theorem concur_defineInSubroutine (level : comparison.Level state state')
    (begun : state.left < comparison.left.tokens.length) (items : Countable)
    (name type : String) (storage : SubroutineStorage) :
    comparison.Concur (Pass.defineInSubroutine items name type storage)
      (Pass.defineInSubroutine items name type storage) state state' fun _ _ after =>
        after.left = state.left ∧ ∃ symbol, state.scope.ofSubroutine.define? name type storage =
          some (symbol, after.scope.ofSubroutine) := by
  unfold Concur Pass.defineInSubroutine
  rw [Pass.run_bind_of_done (Pass.run_state _ _), Pass.run_bind_of_done (Pass.run_state _ _),
    ← level.scope]
  cases defined : state.scope.ofSubroutine.define? name type storage with
  | none => exact concur_tooMany level begun _
  | some found =>
      exact .done ⟨level.left, level.right, level.place, rfl, level.className, level.labels⟩
        ⟨rfl, found.1, rfl⟩

/-- Declaring a variable of a subroutine moves: both are refused or neither is. -/
theorem moves_defineInSubroutine (items : Countable) (name type : String)
    (storage : SubroutineStorage) :
    comparison.Moves (σ := σ) 0 limit Eq (Pass.defineInSubroutine items name type storage)
      (Pass.defineInSubroutine items name type storage) :=
  fun _ _ level begun _ => (concur_defineInSubroutine level begun items name type storage).mono
    fun found => ⟨rfl, Nat.le_of_eq found.1⟩

/-- Opening a subroutine moves. -/
theorem moves_openSubroutine :
    comparison.Moves (σ := σ) 0 limit Eq Pass.openSubroutine Pass.openSubroutine := by
  intro state state' level _ _
  unfold Concur Pass.openSubroutine
  rw [Pass.run_bind_of_done (Pass.run_state _ _), Pass.run_bind_of_done (Pass.run_state _ _),
    ← level.scope]
  exact .done ⟨level.left, level.right, level.place, rfl, level.className, level.labels⟩
    ⟨rfl, Nat.le_refl _⟩

/-- Naming the class moves. -/
theorem moves_setClassName (name : String) :
    comparison.Moves (σ := σ) 0 limit Eq (Pass.setClassName name) (Pass.setClassName name) := by
  intro state state' level _ _
  exact .done ⟨level.left, level.right, level.place, level.scope, rfl, level.labels⟩
    ⟨rfl, Nat.le_refl _⟩

/-- Both draw the same label, or none is left. -/
theorem moves_draw [LabelSource σ] :
    comparison.Moves (σ := σ) 0 limit Eq Pass.draw Pass.draw := by
  intro state state' level _ _
  unfold Concur Pass.draw
  rw [Pass.run_bind_of_done (Pass.run_state _ _), Pass.run_bind_of_done (Pass.run_state _ _),
    ← level.labels]
  cases LabelSource.draw? state.labels with
  | none => exact concur_breakOff level comparison.exhausted
  | some drawn =>
      exact .done ⟨level.left, level.right, level.place, level.scope, level.className, rfl⟩
        ⟨rfl, Nat.le_refl _⟩

end Names

end Comparison

end JackCompiler
