import JackCompiler.Proofs.Recognition.ClassSound
import JackCompiler.Proofs.Recognition.StatementComplete

/-!
# Classes with admissible trees are recognised

Where the yield of an admissible class is all that is left, the recogniser of classes is done unless
the labels run out. Every definition finds room in its table, because the declarations before it are
some of those that the class may have.
-/

namespace JackCompiler

open Grammar

/-- What comes next in front of a mark is the start of what is read, or the mark. -/
theorem TokenStream.Reads.nextKind?_before_mark {source : String} {before after : TokenStream}
    {terminals : List Terminal} {sign : Punctuation}
    (move : before.Reads source (terminals ++ [.mark sign]) after) :
    before.nextKind? = (Grammar.nextKind? terminals).or (some (.punctuation sign)) := by
  cases terminals with
  | nil => exact move.nextKind?
  | cons first others => exact move.nextKind?

namespace PassState

variable {σ : Type} {context : PassContext} {labels : σ} {owner : String}
  {ofClass : List (Declaration ClassStorage)} {ofSubroutine : List (Declaration SubroutineStorage)}
  {before after : PassState σ} {first second : List Terminal} {ending : TokenStream}

/-- A phrase is next, in tables that hold given declarations. The bound of the pass is beyond the
number of tokens left. -/
structure Awaits (context : PassContext) (labels : σ) (owner : String)
    (ofClass : List (Declaration ClassStorage))
    (ofSubroutine : List (Declaration SubroutineStorage)) (before : PassState σ)
    (yield : List Terminal) (ending : TokenStream) : Prop where
  reads : before.stream.Reads context.source yield ending
  carries : before.Carries labels owner ofClass ofSubroutine
  room : before.left < context.bound

/-- A phrase was read, and the tables hold given declarations. -/
structure Arrives (labels : σ) (owner : String) (ofClass : List (Declaration ClassStorage))
    (ofSubroutine : List (Declaration SubroutineStorage)) (ending : TokenStream)
    (after : PassState σ) : Prop where
  stream : after.stream = ending
  carries : after.Carries labels owner ofClass ofSubroutine

namespace Awaits

/-- The first terminal that is awaited can be moved over. -/
theorem head {terminal : Terminal}
    (whole : before.Awaits context labels owner ofClass ofSubroutine (terminal :: second) ending) :
    ∃ middle, before.Reads context.source [terminal] middle ∧
      middle.Awaits context labels owner ofClass ofSubroutine second ending := by
  obtain ⟨stream, one, two⟩ := whole.reads.head
  have move : before.Reads context.source [terminal] { before with stream } := ⟨one, rfl⟩
  have shorter := move.left
  have room := whole.room
  exact ⟨_, move, two, whole.carries.reads move, by omega⟩

/-- Tables may change while nothing is read. -/
theorem retabled {labels' : σ} {ofClass' ofSubroutine'} {yield : List Terminal}
    (awaits : before.Awaits context labels owner ofClass ofSubroutine yield ending)
    (same : after.stream = before.stream)
    (carries : after.Carries labels' owner ofClass' ofSubroutine') :
    after.Awaits context labels' owner ofClass' ofSubroutine' yield ending := by
  have room := awaits.room
  rw [PassState.left, ← same] at room
  exact ⟨same ▸ awaits.reads, carries, room⟩

/-- A phrase in two parts, of which the first may change the tables. -/
theorem split
    (whole : before.Awaits context labels owner ofClass ofSubroutine (first ++ second) ending) :
    ∃ between, before.Awaits context labels owner ofClass ofSubroutine first between ∧
      between.Reads context.source second ending ∧
      ∀ {labels' : σ} {ofClass' ofSubroutine'} {after : PassState σ},
        Arrives labels' owner ofClass' ofSubroutine' between after →
        after.Awaits context labels' owner ofClass' ofSubroutine' second ending := by
  obtain ⟨between, one, two⟩ := whole.reads.split
  refine ⟨between, ⟨one, whole.carries, whole.room⟩, two, ?_⟩
  rintro labels' ofClass' ofSubroutine' after ⟨rfl, carries⟩
  have shorter := one.length_remaining
  have room := whole.room
  refine ⟨two, carries, ?_⟩
  unfold PassState.left at *
  omega

end Awaits

end PassState

namespace Pass

section Sequences

variable {σ α ι : Type} {context : PassContext} {before : PassState σ} {ending : TokenStream}

/-- A round without a comma behind its item is the last one. -/
theorem ends_lastItem {item : α → Pass σ α} {value : α} {finished : α → PassState σ → Prop}
    (ran : (item value).Ends context before finished)
    (closed : ∀ next state, finished next state →
      state.nextKind? ≠ some (.punctuation .comma)) (rounds : Nat) :
    (iterateFor (separatedStep item) (rounds + 1) value).Ends context before finished := by
  have step : (separatedStep item value).Ends context before
      fun outcome state => ∃ next, outcome = .inr next ∧ finished next state :=
    ran.bind fun next state reached =>
      ends_bind_of_done (take_of_ne (closed next state reached)) (ends_pure ⟨next, rfl, reached⟩)
  refine step.bind ?_
  rintro _ state ⟨next, rfl, reached⟩
  exact ends_pure reached

/-- A round with a comma behind its item has others behind it. -/
theorem ends_nextItem {item : α → Pass σ α} {value : α} {finished : α → PassState σ → Prop}
    {between : α → PassState σ → Prop} {rounds : Nat}
    (ran : (item value).Ends context before between)
    (others : ∀ next state, between next state → ∃ later,
      state.Reads context.source [.mark .comma] later ∧
        (iterateFor (separatedStep item) rounds next).Ends context later finished) :
    (iterateFor (separatedStep item) (rounds + 1) value).Ends context before finished := by
  have step : (separatedStep item value).Ends context before fun outcome state =>
      ∃ next, outcome = .inl next ∧
        (iterateFor (separatedStep item) rounds next).Ends context state finished := by
    apply ran.bind
    intro next state reached
    obtain ⟨later, comma, rest⟩ := others next state reached
    have taken : (take (.punctuation .comma)).run context state = .done true later :=
      take_of_reads comma
    exact ends_bind_of_done taken (ends_pure ⟨next, rfl, rest⟩)
  refine step.bind ?_
  rintro _ state ⟨next, rfl, rest⟩
  exact rest

/-- Items separated by commas are recognised one after another, if an invariant that each of them
keeps makes each of them recognised. Some items were seen before. -/
theorem separated_of_seen {item : α → Pass σ α} (yield : ι → List Terminal)
    (Holds : List ι → α → PassState σ → Prop) {all : List ι}
    (keeps : ∀ ⦃seen value before after⦄, Holds seen value before →
      before.Reads context.source [.mark .comma] after → Holds seen value after)
    (each : ∀ ⦃seen found rest value before between⦄, Holds seen value before →
      seen ++ found :: rest = all →
      before.stream.Reads context.source (yield found) between →
      (item value).Ends context before fun next after =>
        after.stream = between ∧ Holds (seen ++ [found]) next after)
    {rounds : Nat} {seen : List ι} {first : ι} {others : List ι} {value : α}
    (holds : Holds seen value before) (split : seen ++ first :: others = all)
    (move : before.stream.Reads context.source
      (yield first ++ others.flatMap fun other => .mark .comma :: yield other) ending)
    (closed : ending.nextKind? ≠ some (.punctuation .comma)) (enough : before.left < rounds) :
    (iterateFor (separatedStep item) rounds value).Ends context before fun result after =>
      after.stream = ending ∧ Holds all result after := by
  induction others generalizing rounds seen first value before with
  | nil =>
      obtain ⟨rounds, rfl⟩ := Nat.exists_eq_add_one_of_ne_zero (Nat.ne_zero_of_lt enough)
      rw [List.flatMap_nil, List.append_nil] at move
      have ran := each holds split move
      rw [split] at ran
      refine ends_lastItem ran ?_ rounds
      rintro next state ⟨rfl, _⟩
      exact closed
  | cons second others inductionHypothesis =>
      obtain ⟨rounds, rfl⟩ := Nat.exists_eq_add_one_of_ne_zero (Nat.ne_zero_of_lt enough)
      rw [List.flatMap_cons, List.cons_append] at move
      obtain ⟨between, one, rest⟩ := move.split
      refine ends_nextItem (each holds split one) ?_
      rintro next state ⟨rfl, holds⟩
      obtain ⟨later, comma, others⟩ := rest.head
      have read : state.Reads context.source [.mark .comma] { state with stream := later } :=
        ⟨comma, rfl⟩
      have shorter := one.length_remaining
      have shorterStill := read.left
      refine ⟨_, read, inductionHypothesis (keeps holds read) ?_ others ?_⟩
      · rw [← split, List.append_assoc, List.singleton_append]
      · simp only [List.length_cons, List.length_nil] at shorterStill
        unfold PassState.left at *
        omega

/-- The same from the first item on. -/
theorem separated_of_reads {item : α → Pass σ α} (yield : ι → List Terminal)
    (Holds : List ι → α → PassState σ → Prop) (first : ι) (others : List ι) {value : α}
    (keeps : ∀ ⦃seen value before after⦄, Holds seen value before →
      before.Reads context.source [.mark .comma] after → Holds seen value after)
    (each : ∀ ⦃seen found rest value before between⦄, Holds seen value before →
      seen ++ found :: rest = first :: others →
      before.stream.Reads context.source (yield found) between →
      (item value).Ends context before fun next after =>
        after.stream = between ∧ Holds (seen ++ [found]) next after)
    (holds : Holds [] value before)
    (move : before.stream.Reads context.source
      (yield first ++ others.flatMap fun other => .mark .comma :: yield other) ending)
    (closed : ending.nextKind? ≠ some (.punctuation .comma))
    (room : before.left < context.bound) :
    (separated item value).Ends context before fun result after =>
      after.stream = ending ∧ Holds (first :: others) result after :=
  separated_of_seen yield Holds keeps each holds rfl move closed room

/-- Parts that follow one another are recognised, as long as the condition holds of what they start
with and not of what is behind them. Some parts were seen before. -/
theorem whileNext_of_seen {condition : Token.Kind → Bool} {part : α → Pass σ α}
    (yield : ι → List Terminal) (Holds : List ι → α → PassState σ → Prop) {all : List ι}
    (opens : ∀ found, ∃ first others, yield found = first :: others ∧ condition first.kind)
    (each : ∀ ⦃seen found rest value before between⦄, Holds seen value before →
      seen ++ found :: rest = all →
      before.stream.Reads context.source (yield found) between → before.left < context.bound →
      (part value).Ends context before fun next after =>
        after.stream = between ∧ Holds (seen ++ [found]) next after)
    {rounds : Nat} {seen left : List ι} {value : α}
    (holds : Holds seen value before) (split : seen ++ left = all)
    (move : before.stream.Reads context.source (left.flatMap yield) ending)
    (closed : ending.nextKind?.any condition = false) (enough : before.left < rounds)
    (room : before.left < context.bound) :
    (iterateFor (whileStep condition part) rounds value).Ends context before fun result after =>
      after.stream = ending ∧ Holds all result after := by
  induction left generalizing rounds seen value before with
  | nil =>
      obtain ⟨rounds, rfl⟩ := Nat.exists_eq_add_one_of_ne_zero (Nat.ne_zero_of_lt enough)
      have stopped := move.eq_of_nil
      subst stopped
      rw [List.append_nil] at split
      exact ends_bind_of_done (whileStep_of_fails closed) (ends_pure ⟨rfl, split ▸ holds⟩)
  | cons found left inductionHypothesis =>
      obtain ⟨rounds, rfl⟩ := Nat.exists_eq_add_one_of_ne_zero (Nat.ne_zero_of_lt enough)
      rw [List.flatMap_cons] at move
      obtain ⟨between, one, rest⟩ := move.split
      obtain ⟨first, others, shape, isFirst⟩ := opens found
      have shorter := one.length_remaining
      have starts : before.nextKind?.any condition = true := by
        rw [shape] at one
        show before.stream.nextKind?.any condition = true
        rw [one.nextKind?, Option.any_some, isFirst]
      have step : (whileStep condition part value).Ends context before fun outcome state =>
          ∃ next, outcome = .inl next ∧ state.stream = between ∧
            Holds (seen ++ [found]) next state := by
        unfold whileStep
        refine ends_bind_of_done (run_nextSatisfies condition) ?_
        rw [if_pos starts]
        refine (each holds split one room).bind ?_
        exact fun next state reached => ends_pure ⟨next, rfl, reached⟩
      refine step.bind ?_
      rintro _ state ⟨next, rfl, rfl, holds⟩
      rw [shape, List.length_cons] at shorter
      unfold PassState.left at *
      refine inductionHypothesis holds ?_ rest (by omega) (by omega)
      rw [← split, List.append_assoc, List.singleton_append]

/-- The same from the first part on. -/
theorem whileNext_of_reads {condition : Token.Kind → Bool} {part : α → Pass σ α}
    (yield : ι → List Terminal) (Holds : List ι → α → PassState σ → Prop) (all : List ι) {value : α}
    (opens : ∀ found, ∃ first others, yield found = first :: others ∧ condition first.kind)
    (each : ∀ ⦃seen found rest value before between⦄, Holds seen value before →
      seen ++ found :: rest = all →
      before.stream.Reads context.source (yield found) between → before.left < context.bound →
      (part value).Ends context before fun next after =>
        after.stream = between ∧ Holds (seen ++ [found]) next after)
    (holds : Holds [] value before)
    (move : before.stream.Reads context.source (all.flatMap yield) ending)
    (closed : ending.nextKind?.any condition = false) (room : before.left < context.bound) :
    (whileNext condition part value).Ends context before fun result after =>
      after.stream = ending ∧ Holds all result after :=
  whileNext_of_seen yield Holds opens each holds rfl move closed room room

/-- A part that ends as described ends as described in less detail. -/
theorem Ends.mono {part : Pass σ α} {finished reached : α → PassState σ → Prop}
    (ends : part.Ends context before finished)
    (weaker : ∀ value state, finished value state → reached value state) :
    part.Ends context before reached := by
  unfold Ends at *
  cases outcome : part.run context before with
  | done value state =>
      rw [outcome] at ends
      exact weaker value state ends
  | halted reason state =>
      rw [outcome] at ends
      exact ends

end Sequences

/-! ## Declarations -/

section Declarations

variable {σ : Type} {context : PassContext} {labels : σ} {owner : String}
  {ofClass : List (Declaration ClassStorage)} {ofSubroutine : List (Declaration SubroutineStorage)}
  {before after : PassState σ} {ending : TokenStream}

/-- A storage class that has room for a declaration and others behind it is not full yet. -/
theorem count_lt_of_append {κ : Type} [DecidableEq κ] {declared others : List (Declaration κ)}
    {name type : String} {storage : κ}
    (room : Declaration.count (declared ++ ⟨name, type, storage⟩ :: others) storage ≤ maxCount) :
    Declaration.count declared.reverse storage < 65535 := by
  rw [Declaration.count_append, Declaration.count_cons, if_pos rfl] at room
  rw [Declaration.count_reverse]
  simp only [maxCount] at room
  omega

/-- Names that are declared alike count as many as they are. -/
theorem count_names {κ : Type} [DecidableEq κ] (names : List String) (type : String) (storage : κ) :
    Declaration.count (names.map (Declaration.mk · type storage)) storage = names.length := by
  rw [Declaration.count_eq_length, List.length_map]
  intro declaration member
  obtain ⟨_, _, rfl⟩ := List.mem_map.1 member
  rfl

/-- Local variables in front of one more are fewer than can be counted. -/
theorem length_lt_of_append {declared others : List (Declaration SubroutineStorage)}
    {name type : String} {seen : List String}
    (room : Declaration.count (declared ++ seen.map (Declaration.mk · type .local) ++
      ⟨name, type, .local⟩ :: others) .local ≤ maxCount) :
    seen.length < maxCount := by
  rw [Declaration.count_append, Declaration.count_append, Declaration.count_cons, if_pos rfl,
    count_names] at room
  omega

/-- A variable of a class is declared where there is room for it. -/
theorem ends_defineInClass {name type : String} {storage : ClassStorage}
    {others : List (Declaration ClassStorage)}
    (carries : before.Carries labels owner ofClass ofSubroutine)
    (room : Declaration.count (ofClass ++ ⟨name, type, storage⟩ :: others) storage ≤ maxCount) :
    (defineInClass name type storage).Ends context before fun _ after =>
      after.stream = before.stream ∧
        after.Carries labels owner (ofClass ++ [⟨name, type, storage⟩]) ofSubroutine := by
  obtain ⟨symbol, table, defined⟩ :=
    carries.ofClass.exists_define name type (count_lt_of_append room)
  have ran : (defineInClass name type storage).run context before = .done ()
      { before with scope := { before.scope with ofClass := table } } := by
    unfold defineInClass
    rw [run_bind_of_done (run_state context before), defined]
    rfl
  exact ends_of_done ran (defineInClass_of_done carries ran)

/-- A variable of a subroutine is declared where there is room for it. -/
theorem ends_defineInSubroutine {items : Countable} {name type : String}
    {storage : SubroutineStorage} {others : List (Declaration SubroutineStorage)}
    (carries : before.Carries labels owner ofClass ofSubroutine)
    (room : Declaration.count (ofSubroutine ++ ⟨name, type, storage⟩ :: others) storage ≤
      maxCount) :
    (defineInSubroutine items name type storage).Ends context before fun _ after =>
      after.stream = before.stream ∧
        after.Carries labels owner ofClass (ofSubroutine ++ [⟨name, type, storage⟩]) := by
  obtain ⟨symbol, table, defined⟩ :=
    carries.ofSubroutine.exists_define name type (count_lt_of_append room)
  have ran : (defineInSubroutine items name type storage).run context before = .done ()
      { before with scope := { before.scope with ofSubroutine := table } } := by
    unfold defineInSubroutine
    rw [run_bind_of_done (run_state context before), defined]
    rfl
  exact ends_of_done ran (defineInSubroutine_of_done carries ran)

/-- A mark behind what was read. -/
theorem ends_closing {between : TokenStream} {sign : Punctuation}
    (arrives : before.Arrives labels owner ofClass ofSubroutine between)
    (closing : between.Reads context.source [.mark sign] ending) :
    (expectMark sign).Ends context before fun _ after =>
      after.Arrives labels owner ofClass ofSubroutine ending := by
  obtain ⟨rfl, carries⟩ := arrives
  have move : before.Reads context.source [.mark sign] { before with stream := ending } :=
    ⟨closing, rfl⟩
  exact ends_of_done (expectMark_of_reads move) ⟨rfl, carries.reads move⟩

/-- Variables of a class that are awaited are declared where there is room for them. -/
theorem ends_classVariables {tree : ClassVariables}
    (awaits : before.Awaits context labels owner ofClass ofSubroutine tree.yield ending)
    (room : ∀ storage, Declaration.count
      (ofClass ++ tree.group.declarations tree.storage) storage ≤ maxCount) :
    classVariables.Ends context before fun _ after =>
      after.Arrives labels owner (ofClass ++ tree.group.declarations tree.storage)
        ofSubroutine ending := by
  obtain ⟨storage, type, name, others⟩ := tree
  rw [ClassVariables.yield, Variables.yield_eq] at awaits
  obtain ⟨worded, word, awaits⟩ := awaits.head
  obtain ⟨typed, written, awaits⟩ := awaits.head
  obtain ⟨between, names, semicolon, awaits⟩ := awaits.split
  obtain ⟨keyword, shown, read⟩ :=
    expectAny_of_reads (mem_classVariableKinds_iff.2 ⟨storage, rfl⟩) word
  have isStorage : (if keyword.kind = .keyword .static then ClassStorage.static else .field) =
      storage := by
    rw [Token.kind_of_terminal? shown, storage_of_word]
  refine ends_bind_of_done read (ends_bind_of_done (typeName_of_reads written) ?_)
  rw [isStorage]
  have closed : between.nextKind? ≠ some (.punctuation .comma) := by
    rw [semicolon.nextKind?]
    simp [Terminal.kind]
  have listed : (separated (fun () => do defineInClass (← Pass.name) type.text storage) ()).Ends
      context typed fun _ state => state.stream = between ∧ state.Carries labels owner
        (ofClass ++ (name :: others).map fun name => ⟨name, type.text, storage⟩) ofSubroutine := by
    refine separated_of_reads (fun name : String => [.name name])
      (fun seen () state => state.Carries labels owner
        (ofClass ++ seen.map (Declaration.mk · type.text storage)) ofSubroutine) name others
      ?_ ?_ ?_ names.reads closed names.room
    · exact fun _ _ _ _ holds comma => holds.reads comma
    rotate_left
    · simpa using names.carries
    intro seen found rest _ before between holds split move
    have read : before.Reads context.source [.name found] { before with stream := between } :=
      ⟨move, rfl⟩
    have fits := room storage
    rw [Variables.declarations, Variables.names, ← split, List.map_append, List.map_cons,
      ← List.append_assoc] at fits
    refine ends_bind_of_done (name_of_reads read) ?_
    refine (ends_defineInClass (holds.reads read) fits).mono ?_
    rintro _ after ⟨same, holds⟩
    exact ⟨same, by simpa using holds⟩
  exact listed.bind fun _ state reached => ends_closing ⟨reached.1, reached.2⟩ semicolon

/-- Parameters that are awaited are declared where there is room for them. -/
theorem ends_parameters {trees : List Parameter}
    (awaits : before.Awaits context labels owner ofClass ofSubroutine
      (.mark .leftParen :: (parametersYield trees ++ [.mark .rightParen])) ending)
    (room : Declaration.count (ofSubroutine ++
      trees.map fun parameter => ⟨parameter.name, parameter.type.text, .argument⟩) .argument ≤
        maxCount) :
    parameters.Ends context before fun _ after =>
      after.Arrives labels owner ofClass (ofSubroutine ++
        trees.map fun parameter => ⟨parameter.name, parameter.type.text, .argument⟩) ending := by
  obtain ⟨opened, brace, awaits⟩ := awaits.head
  refine ends_bind_of_done (expectMark_of_reads brace) ?_
  cases trees with
  | nil =>
      obtain ⟨closed, close, awaits⟩ := awaits.head
      have taken : (take (.punctuation .rightParen)).run context opened = .done true closed :=
        take_of_reads close
      refine ends_bind_of_done taken (ends_pure ⟨awaits.reads.eq_of_nil.symm, ?_⟩)
      simpa using awaits.carries
  | cons first others =>
      obtain ⟨between, listed, closing, _⟩ := awaits.split
      have written : opened.nextKind? = some first.type.terminal.kind :=
        TokenStream.Reads.nextKind? listed.reads
      have apart : opened.nextKind? ≠ some (.punctuation .rightParen) := by
        rw [written]
        cases first.type <;> simp [TypeName.terminal, Terminal.kind]
      have closed : between.nextKind? ≠ some (.punctuation .comma) := by
        rw [closing.nextKind?]
        simp [Terminal.kind]
      refine ends_bind_of_done (take_of_ne apart) ?_
      rw [if_neg Bool.false_ne_true]
      -- Every round keeps that the parameters seen so far are declared.
      refine Ends.bind (separated_of_reads Parameter.yield (fun seen () state =>
        state.Carries labels owner ofClass (ofSubroutine ++ seen.map fun parameter =>
          Declaration.mk parameter.name parameter.type.text .argument)) first others ?_ ?_ ?_
          listed.reads closed listed.room) ?_
      · exact fun _ _ _ _ holds comma => holds.reads comma
      · intro seen found rest _ before between holds split move
        obtain ⟨typed, written, named⟩ := move.head
        have type : before.Reads context.source [found.type.terminal]
          { before with stream := typed } := ⟨written, rfl⟩
        have read : PassState.Reads context.source { before with stream := typed }
          [.name found.name] { before with stream := between } := ⟨named, rfl⟩
        have fits := room
        rw [← split, List.map_append, List.map_cons, ← List.append_assoc] at fits
        refine ends_bind_of_done (typeName_of_reads type) ?_
        refine ends_bind_of_done (name_of_reads read) ?_
        refine (ends_defineInSubroutine ((holds.reads type).reads read) fits).mono ?_
        rintro _ after ⟨same, holds⟩
        exact ⟨same, by simpa using holds⟩
      · simpa using listed.carries
      · exact fun _ _ reached => ends_closing ⟨reached.1, reached.2⟩ closing

/-- Local variables of one type that are awaited are declared and counted. -/
theorem ends_localVariables {tree : Variables}
    (awaits : before.Awaits context labels owner ofClass ofSubroutine
      (.keyword .var :: tree.yield) ending)
    (room : Declaration.count (ofSubroutine ++ tree.declarations .local) .local ≤ maxCount) :
    localVariables.Ends context before fun count after =>
      after.Arrives labels owner ofClass (ofSubroutine ++ tree.declarations .local) ending ∧
        count.toNat = tree.names.length := by
  obtain ⟨type, name, others⟩ := tree
  rw [Variables.yield_eq] at awaits
  obtain ⟨worded, word, awaits⟩ := awaits.head
  obtain ⟨typed, written, awaits⟩ := awaits.head
  obtain ⟨between, listed, semicolon, _⟩ := awaits.split
  obtain ⟨_, _, first⟩ := expect_of_reads word
  refine ends_bind_of_done first (ends_bind_of_done (typeName_of_reads written) ?_)
  have closed : between.nextKind? ≠ some (.punctuation .comma) := by
    rw [semicolon.nextKind?]
    simp [Terminal.kind]
  refine Ends.bind (separated_of_reads (fun name : String => [.name name])
    (fun seen (count : UInt16) state => state.Carries labels owner ofClass
      (ofSubroutine ++ seen.map (Declaration.mk · type.text .local)) ∧
        count.toNat = seen.length) name others ?_ ?_ ?_ listed.reads closed listed.room) ?_
  · exact fun _ _ _ _ holds comma => ⟨holds.1.reads comma, holds.2⟩
  · rintro seen found rest count before between ⟨holds, counted⟩ split move
    have read : before.Reads context.source [.name found] { before with stream := between } :=
      ⟨move, rfl⟩
    have fits := room
    rw [Variables.declarations, Variables.names, ← split, List.map_append, List.map_cons,
      ← List.append_assoc] at fits
    refine ends_bind_of_done (name_of_reads read) ?_
    refine (ends_defineInSubroutine (holds.reads read) fits).bind ?_
    rintro _ after ⟨same, holds⟩
    have small := length_lt_of_append fits
    simp only [maxCount, ← counted] at small
    have below : count ≠ 65535 := by
      rintro rfl
      exact absurd small (by decide)
    rw [if_neg below]
    refine ends_pure ⟨same, by simpa using holds, ?_⟩
    rw [UInt16.toNat_add, List.length_append, ← counted]
    simp
    omega
  · exact ⟨by simpa using listed.carries, rfl⟩
  · rintro count state ⟨same, holds, counted⟩
    refine (ends_closing ⟨same, holds⟩ semicolon).bind ?_
    exact fun _ _ reached => ends_pure ⟨reached, counted⟩

/-- All local variables are counted. -/
theorem count_localDeclarations (trees : List Variables) :
    Declaration.count (trees.flatMap (Variables.declarations SubroutineStorage.local)) .local =
      (trees.flatMap (Variables.declarations SubroutineStorage.local)).length :=
  Declaration.count_eq_length storage_of_declarations

/-- All local variables that are awaited are declared and counted. -/
theorem ends_allLocalVariables {trees : List Variables}
    (awaits : before.Awaits context labels owner ofClass ofSubroutine (localsYield trees) ending)
    (closed : ending.nextKind?.any (· == .keyword .var) = false)
    (room : Declaration.count (ofSubroutine ++ trees.flatMap (Variables.declarations .local))
      .local ≤ maxCount) :
    allLocalVariables.Ends context before fun _ after => after.Arrives labels owner ofClass
      (ofSubroutine ++ trees.flatMap (Variables.declarations .local)) ending := by
  refine (whileNext_of_reads (fun tree : Variables => .keyword .var :: tree.yield)
    (fun seen (count : UInt16) state => state.Carries labels owner ofClass
      (ofSubroutine ++ seen.flatMap (Variables.declarations .local)) ∧
        count.toNat = (seen.flatMap (Variables.declarations SubroutineStorage.local)).length)
    trees ?_ ?_ ?_ awaits.reads closed awaits.room).mono ?_
  · exact fun tree => ⟨_, _, rfl, rfl⟩
  · rintro seen found rest count before between ⟨holds, counted⟩ split move enough
    rw [← split, List.flatMap_append, List.flatMap_cons, ← List.append_assoc, ← List.append_assoc,
      Declaration.count_append] at room
    refine (ends_localVariables ⟨move, holds, enough⟩ (by omega)).bind ?_
    rintro more state ⟨⟨rfl, reached⟩, number⟩
    rw [Declaration.count_append, Declaration.count_append, count_localDeclarations,
      Variables.declarations, count_names, ← counted, ← number] at room
    obtain ⟨total, added, isSum⟩ : ∃ total, (sum .localVariables count more).run context state =
        .done total state ∧ total.toNat = count.toNat + more.toNat :=
      exists_sum _ _ _ _ (by omega)
    refine ends_of_done added ⟨rfl, ?_, ?_⟩
    · simpa using reached
    · rw [isSum, counted, number]
      simp [Variables.declarations]
  · exact ⟨by simpa using awaits.carries, rfl⟩
  · exact fun _ _ reached => ⟨reached.1, reached.2.1⟩

/-- All variables of a class that are awaited are declared where there is room for them. -/
theorem ends_allClassVariables {trees : List ClassVariables}
    (awaits : before.Awaits context labels owner [] ofSubroutine
      (trees.flatMap ClassVariables.yield) ending)
    (closed : ending.nextKind?.any Token.Kind.opensClassVariables = false)
    (room : ∀ storage, Declaration.count (trees.flatMap fun declared =>
      declared.group.declarations declared.storage) storage ≤ maxCount) :
    (whileNext Token.Kind.opensClassVariables (fun () => classVariables) ()).Ends context before
      fun _ after => after.Arrives labels owner (trees.flatMap fun declared =>
        declared.group.declarations declared.storage) ofSubroutine ending := by
  refine (whileNext_of_reads ClassVariables.yield
    (fun seen () state => state.Carries labels owner
      (seen.flatMap fun declared => declared.group.declarations declared.storage)
      ofSubroutine) trees ClassVariables.opens ?_ awaits.carries awaits.reads closed
    awaits.room).mono fun _ _ reached => ⟨reached.1, reached.2⟩
  intro seen found rest _ before between holds split move enough
  have fits : ∀ storage, Declaration.count (seen.flatMap (fun declared =>
      declared.group.declarations declared.storage) ++
      found.group.declarations found.storage) storage ≤ maxCount := by
    intro storage
    have fits := room storage
    rw [← split, List.flatMap_append, List.flatMap_cons, ← List.append_assoc,
      Declaration.count_append] at fits
    exact Nat.le_of_add_right_le fits
  refine (ends_classVariables ⟨move, holds, enough⟩ fits).mono ?_
  rintro _ after ⟨same, reached⟩
  exact ⟨same, by simpa using reached⟩

end Declarations

/-! ## Subroutines -/

section Subroutines

variable {σ : Type} {context : PassContext} {labels : σ} {owner : String}
  {ofClass : List (Declaration ClassStorage)} {ofSubroutine : List (Declaration SubroutineStorage)}
  {before after : PassState σ} {ending : TokenStream}

/-- The receiver of a method is declared where there is room for it. -/
theorem ends_defineReceiver {kind : SubroutineKind}
    (carries : before.Carries labels owner ofClass [])
    (room : Declaration.count (kind.receiver owner) .argument ≤ maxCount) :
    (defineReceiver (.keyword kind.word) owner).Ends context before fun _ after =>
      after.stream = before.stream ∧ after.Carries labels owner ofClass (kind.receiver owner) := by
  cases kind with
  | method =>
      have room : Declaration.count ([] ++ ⟨"this", owner, .argument⟩ :: [])
        SubroutineStorage.argument ≤ maxCount := room
      exact ends_defineInSubroutine carries room
  | constructor | function => exact ends_pure ⟨rfl, carries⟩

/-- What comes before the first declaration of a class sets its name. -/
theorem opening_of_reads {name : String} {yield : List Terminal} (scope : before.scope = .empty)
    (room : before.left < context.bound)
    (whole : before.stream.Reads context.source
      (.keyword .class :: .name name :: .mark .leftBrace :: yield) ending) :
    ∃ token worded named after, (expect (.keyword .class)).run context before = .done token worded ∧
      Pass.name.run context worded = .done name named ∧
      (expectMark .leftBrace).run context { named with className := name } = .done () after ∧
      after.Awaits context before.labels name [] [] yield ending := by
  have move : before.Reads context.source _ { before with stream := ending } := ⟨whole, rfl⟩
  obtain ⟨worded, word, move⟩ := move.head
  obtain ⟨named, read, move⟩ := move.head
  obtain ⟨token, _, first⟩ := expect_of_reads word
  have opened := word.trans read
  have empty : named.scope = .empty := opened.passes.scope.trans scope
  have shorter := opened.left
  have awaits : PassState.Awaits context before.labels name [] [] { named with className := name }
      (.mark .leftBrace :: yield) ending := by
    refine ⟨move.stream, ⟨opened.labels, rfl, ?_, ?_⟩, ?_⟩
    · rw [empty]
      exact .empty
    · rw [empty]
      exact .empty
    · exact Nat.lt_of_le_of_lt (shorter ▸ Nat.le_add_left _ _) room
  obtain ⟨after, brace, awaits⟩ := awaits.head
  exact ⟨token, worded, named, after, first, name_of_reads read, expectMark_of_reads brace, awaits⟩

variable [LabelSource σ]

/-- The body of a subroutine that is awaited ends up to labels. -/
theorem ends_subroutineBody {locals : List Variables} {tree : Statements}
    {environment : Environment}
    (awaits : before.Awaits context labels owner ofClass ofSubroutine
      (.mark .leftBrace :: (localsYield locals ++ (tree.yield ++ [.mark .rightBrace]))) ending)
    (room : Declaration.count (ofSubroutine ++ locals.flatMap (Variables.declarations .local))
      SubroutineStorage.local ≤ maxCount)
    (isEnvironment : environment = .ofDeclarations owner ofClass.reverse
      (ofSubroutine ++ locals.flatMap (Variables.declarations SubroutineStorage.local)).reverse)
    (met : ∀ demand ∈ tree.demands environment, demand.Met environment) :
    subroutineBody.Ends context before fun _ after => ∃ labels, after.Arrives labels owner ofClass
      (ofSubroutine ++ locals.flatMap (Variables.declarations .local)) ending := by
  obtain ⟨_, brace, awaits⟩ := awaits.head
  obtain ⟨between, declared, stated, onwards⟩ := awaits.split
  have closed : between.nextKind?.any (· == .keyword .var) = false := by
    rw [stated.nextKind?_before_mark]
    exact tree.not_var
  refine ends_bind_of_done (expectMark_of_reads brace) ?_
  refine (ends_allLocalVariables declared closed room).bind ?_
  intro _ state reached
  have awaits := onwards reached
  obtain ⟨behind, body, close⟩ := awaits.reads.split
  have read : state.Reads context.source tree.yield { state with stream := behind } := ⟨body, rfl⟩
  have closing : PassState.Reads context.source { state with stream := behind }
    [.mark .rightBrace] { state with stream := ending } := ⟨close, rfl⟩
  have offered : Offers context environment state tree.yield (tree.demands environment)
      { state with stream := behind } := by
    refine ⟨read, ?_, met, awaits.room⟩
    rw [isEnvironment, awaits.carries.environment]
  refine (wholeStatements_of_offers tree offered closing state.labels).bind ?_
  rintro _ _ ⟨left, rfl⟩
  refine ends_bind_of_done (expectMark_of_reads (closing.withLabels left)) (ends_pure ?_)
  have carries := awaits.carries
  exact ⟨left, rfl, rfl, carries.className, carries.ofClass, carries.ofSubroutine⟩

/-- The parameters and the body of an admissible subroutine, behind its receiver. -/
theorem ends_subroutineRest {tree : Subroutine} (admissible : tree.Admissible owner ofClass)
    (awaits : before.Awaits context labels owner ofClass (tree.kind.receiver owner)
      ((.mark .leftParen :: (parametersYield tree.parameters ++ [.mark .rightParen])) ++
        .mark .leftBrace :: (localsYield tree.locals ++
          (tree.body.yield ++ [.mark .rightBrace]))) ending) (keyword : Token.Kind) :
    (subroutineRest keyword owner tree.name).Ends context before fun _ after =>
      ∃ labels, after.Arrives labels owner ofClass (tree.declarations owner) ending := by
  obtain ⟨_, declared, _, onwards⟩ := awaits.split
  have parameters := admissible.counts .argument
  have locals := admissible.counts .local
  unfold Subroutine.declarations at parameters locals
  rw [Declaration.count_append] at parameters
  refine (ends_parameters declared (Nat.le_of_add_right_le parameters)).bind ?_
  intro _ state reached
  refine (ends_subroutineBody (onwards reached) locals rfl admissible.demands).bind ?_
  rintro ⟨_, _⟩ _ arrived
  exact ends_bind_of_done (run_state _ _) (ends_pure arrived)

/-- An admissible subroutine is recognised. -/
theorem ends_subroutine {tree : Subroutine} (admissible : tree.Admissible owner ofClass)
    (awaits : before.Awaits context labels owner ofClass ofSubroutine tree.yield ending) :
    subroutine.Ends context before fun _ after =>
      ∃ labels, after.Arrives labels owner ofClass (tree.declarations owner) ending := by
  rw [subroutine_eq]
  have shape : tree.yield = .keyword tree.kind.word :: resultTerminal tree.result ::
      .name tree.name :: ((.mark .leftParen :: (parametersYield tree.parameters ++
        [.mark .rightParen])) ++ .mark .leftBrace :: (localsYield tree.locals ++
          (tree.body.yield ++ [.mark .rightBrace]))) := by
    simp [Subroutine.yield]
  rw [shape] at awaits
  obtain ⟨worded, word, awaits⟩ := awaits.head
  obtain ⟨keyword, shown, read⟩ :=
    expectAny_of_reads (mem_subroutineKinds_iff.2 ⟨tree.kind, rfl⟩) word
  have wordKind : keyword.kind = .keyword tree.kind.word := Token.kind_of_terminal? shown
  obtain ⟨fresh, opening⟩ : ∃ fresh, openSubroutine.run context worded = .done () fresh := ⟨_, rfl⟩
  obtain ⟨same, carries⟩ := openSubroutine_of_done awaits.carries opening
  have awaits := awaits.retabled same carries
  refine ends_bind_of_done read (ends_bind_of_done opening ?_)
  obtain ⟨typed, type, awaits⟩ := awaits.head
  obtain ⟨_, _, written⟩ := expectAny_of_reads (mem_returnTypes_iff.2 ⟨tree.result, rfl⟩) type
  obtain ⟨named, name, awaits⟩ := awaits.head
  refine ends_bind_of_done written (ends_bind_of_done (name_of_reads name) ?_)
  refine ends_bind_of_done run_className ?_
  rw [awaits.carries.environment, wordKind]
  have receiver := admissible.counts .argument
  unfold Subroutine.declarations at receiver
  rw [List.append_assoc, Declaration.count_append] at receiver
  refine (ends_defineReceiver awaits.carries (Nat.le_of_add_right_le receiver)).bind ?_
  rintro _ state ⟨same, carries⟩
  exact ends_subroutineRest admissible (awaits.retabled same carries) _

/-- Subroutines are recognised one after another, from whatever labels and variables the one before
leaves. -/
theorem ends_subroutines {trees : List Subroutine}
    (admissible : ∀ tree ∈ trees, tree.Admissible owner ofClass)
    (awaits : before.Awaits context labels owner ofClass ofSubroutine
      (trees.flatMap Subroutine.yield) ending)
    (closed : ending.nextKind?.any Token.Kind.opensSubroutine = false) :
    (whileNext Token.Kind.opensSubroutine (fun code : Code => do pure (code ++ (← subroutine)))
      .empty).Ends context before fun _ after => after.stream = ending := by
  refine (whileNext_of_reads Subroutine.yield
    (fun _ _ state => ∃ labels ofSubroutine, state.Carries labels owner ofClass ofSubroutine)
    trees Subroutine.opens ?_ ?_ awaits.reads closed awaits.room).mono fun _ _ => And.left
  · rintro seen found rest code before between ⟨_, _, carries⟩ split move room
    have member : found ∈ trees := split ▸ List.mem_append_right _ List.mem_cons_self
    refine (ends_subroutine (admissible found member) ⟨move, carries, room⟩).bind ?_
    rintro _ _ ⟨_, same, carries⟩
    exact ends_pure ⟨same, _, _, carries⟩
  · exact ⟨_, _, awaits.carries⟩

/-- A class is recognised where the yield of an admissible tree is all that is left. -/
theorem ends_classDeclaration {tree : ClassDeclaration} (admissible : tree.Admissible)
    (scope : before.scope = .empty) (room : before.left < context.bound)
    (whole : before.stream.Reads context.source tree.yield ending)
    (ended : ending.remaining = []) :
    classDeclaration.Ends context before fun _ _ => True := by
  have shape : tree.yield = .keyword .class :: .name tree.name :: .mark .leftBrace ::
      (tree.groups.flatMap ClassVariables.yield ++
        (tree.subroutines.flatMap Subroutine.yield ++ [.mark .rightBrace])) := by
    simp [ClassDeclaration.yield]
  rw [shape] at whole
  obtain ⟨_, _, _, _, first, named, brace, awaits⟩ := opening_of_reads scope room whole
  obtain ⟨behind, declared, opened, onwards⟩ := awaits.split
  have closed : behind.nextKind?.any Token.Kind.opensClassVariables = false := by
    rw [opened.nextKind?_before_mark]
    exact not_opensClassVariables tree.subroutines
  refine ends_bind_of_done first (ends_bind_of_done named (ends_bind_of_done rfl ?_))
  refine ends_bind_of_done brace ?_
  refine (ends_allClassVariables declared closed admissible.counts).bind ?_
  intro _ state reached
  have awaits := onwards reached
  obtain ⟨closing, subroutines, close, _⟩ := awaits.split
  have closed : closing.nextKind?.any Token.Kind.opensSubroutine = false := by
    rw [close.nextKind?]
    rfl
  refine (ends_subroutines admissible.subroutines subroutines closed).bind ?_
  rintro code state rfl
  have closing : state.Reads context.source [.mark .rightBrace] { state with stream := ending } :=
    ⟨close, rfl⟩
  have nothing : ending.peek? = none := List.head?_eq_none_iff.2 ended
  refine ends_bind_of_done (expectMark_of_reads closing) (ends_bind_of_done run_peek? ?_)
  rw [nothing]
  exact ends_pure trivial

end Subroutines

end Pass

end JackCompiler
