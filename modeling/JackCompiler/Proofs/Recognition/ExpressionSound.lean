import JackCompiler.Compilation.Expression
import JackCompiler.Proofs.Recognition.Steps

/-!
# Recognised expressions have trees

A recogniser of expressions that is done has moved over the yield of a tree, and its code is that of
the tree. The recognisers nest through parameters, so each is sound if those it is given are, and
one induction on the depth of terms closes the circle.
-/

namespace JackCompiler

open Grammar

/-- What was emitted while moving over a phrase, given the yield, the demands and the code of a tree
of the phrase. -/
structure Translates {σ : Type} (source : String) (environment : Environment)
    (before : PassState σ) (yield : List Terminal) (demands : List Demand)
    (expected : List Instruction) (code : Code) (after : PassState σ) : Prop where
  reads : before.Reads source yield after
  met : ∀ demand ∈ demands, demand.Met environment
  code : code.toList = expected

namespace Pass

variable {σ : Type} {context : PassContext} {environment : Environment}
  {before middle after : PassState σ} {code : Code}

/-- A part that is done has translated a term. -/
def FindsTerms (context : PassContext) (environment : Environment) (part : Pass σ Code) : Prop :=
  ∀ ⦃before after code⦄, before.Ready context.source environment →
    part.run context before = .done code after →
    ∃ tree : Term, Translates context.source environment before tree.yield
      (tree.demands environment) (tree.code environment) code after

/-- A part that is done has translated an expression. -/
def FindsExpressions (context : PassContext) (environment : Environment) (part : Pass σ Code) :
    Prop :=
  ∀ ⦃before after code⦄, before.Ready context.source environment →
    part.run context before = .done code after →
    ∃ tree : Expression, Translates context.source environment before tree.yield
      (tree.demands environment) (tree.code environment) code after

/-! ## Operators -/

/-- The next operator is that of the next kind, and nothing is read. -/
theorem run_nextOperator? :
    nextOperator?.run context before =
      .done (before.nextKind?.bind BinaryOperator.ofKind?) before := by
  unfold nextOperator?
  rw [run_bind_of_done run_peek?]
  unfold PassState.nextKind? TokenStream.nextKind?
  cases before.stream.peek? <;> rfl

/-- A round of terms joined by operators. -/
def operandStep (term : Pass σ Code) (code : Code) : Pass σ (Code ⊕ Code) := do
  match ← nextOperator? with
  | some operator =>
      let _ ← advance
      let operand ← term
      pure (.inl ((code ++ operand).binary operator))
  | none => pure (.inr code)

/-- An expression is rounds of reading one operator and its operand. -/
theorem expressionOf_eq (term : Pass σ Code) :
    expressionOf term = (do
      let first ← term
      iterate (operandStep term) first) := rfl

/-- A round ends the expression unless it reads an operator and a term. -/
theorem operandStep_eq_done_iff {term : Pass σ Code} {first : Code} {outcome : Code ⊕ Code} :
    (operandStep term first).run context before = .done outcome after ↔
      (outcome = .inr first ∧ after = before ∧
        before.nextKind?.bind BinaryOperator.ofKind? = none) ∨
      ∃ (operator : BinaryOperator) (operand : Code) (middle : PassState σ),
        before.Reads context.source [.mark operator.mark] middle ∧
        term.run context middle = .done operand after ∧
        outcome = .inl ((first ++ operand).binary operator) := by
  unfold operandStep
  rw [run_bind_of_done run_nextOperator?]
  cases next : before.nextKind?.bind BinaryOperator.ofKind? with
  | none =>
      constructor
      · rintro ⟨⟩
        exact .inl ⟨rfl, rfl, rfl⟩
      · rintro (⟨rfl, rfl, _⟩ | ⟨operator, _, middle, move, _⟩)
        · rfl
        · rw [move.nextKind?] at next
          have known : BinaryOperator.ofKind? (.punctuation operator.mark) = some operator :=
            BinaryOperator.ofKind?_eq_some_iff.2 rfl
          exact absurd (known.symm.trans next) (by simp)
  | some operator =>
      obtain ⟨kind, comes, isOperator⟩ := Option.bind_eq_some_iff.1 next
      have isMark := BinaryOperator.ofKind?_eq_some_iff.1 isOperator
      constructor
      · intro finished
        obtain ⟨token, middle, read, rest⟩ := run_bind_eq_done_iff.1 finished
        obtain ⟨operand, _, ran, last⟩ := run_bind_eq_done_iff.1 rest
        cases last
        have same := nextKind?_of_advance read
        rw [comes, Option.some.injEq] at same
        exact .inr ⟨operator, operand, middle,
          reads_of_advanceMark (same.symm.trans isMark) read, ran, rfl⟩
      · rintro (⟨_, _, impossible⟩ | ⟨other, operand, middle, move, ran, rfl⟩)
        · cases impossible
        · have same := move.nextKind?
          rw [comes, Option.some.injEq, isMark] at same
          have known : BinaryOperator.ofKind? (.punctuation operator.mark) = some other :=
            BinaryOperator.ofKind?_eq_some_iff.2 same
          rw [← isMark, isOperator, Option.some.injEq] at known
          obtain ⟨token, _, read⟩ := advance_of_reads move
          rw [← known, run_bind_of_done read, run_bind_of_done ran]
          rfl

/-- The operands of all rounds are a tree, by induction on the number of rounds. -/
theorem operands_of_done {term : Pass σ Code} (terms : FindsTerms context environment term)
    (rounds : Nat) {first : Code} (ready : before.Ready context.source environment)
    (finished : (iterateFor (operandStep term) rounds first).run context before =
      .done code after) :
    ∃ tree : Operands, Translates context.source environment before tree.yield
      (tree.demands environment) (first.toList ++ tree.code environment) code after := by
  induction rounds generalizing before first with
  | zero => exact absurd finished iterateFor_zero
  | succ rounds inductionHypothesis =>
      rcases iterateFor_eq_done_iff.1 finished with last | ⟨next, middle, round, others⟩
      · rcases operandStep_eq_done_iff.1 last with ⟨same, rfl, _⟩ | ⟨_, _, _, _, _, impossible⟩
        · cases same
          exact ⟨.nil, .nil _, by simp [Operands.demands], by simp [Operands.code]⟩
        · cases impossible
      · rcases operandStep_eq_done_iff.1 round with
          ⟨impossible, _⟩ | ⟨operator, operand, start, mark, ran, same⟩
        · cases impossible
        · cases same
          obtain ⟨tree, parsed⟩ := terms (mark.ready ready) ran
          have sofar := mark.trans parsed.reads
          obtain ⟨rest, later⟩ := inductionHypothesis (sofar.ready ready) others
          refine ⟨.cons operator tree rest, ?_, ?_, ?_⟩
          · simpa [Operands.yield] using sofar.trans later.reads
          · rw [Operands.demands, List.forall_mem_append]
            exact ⟨parsed.met, later.met⟩
          · rw [later.code, Code.toList_binary, Code.toList_append, parsed.code]
            simp [Operands.code]

/-- Expressions find trees if terms do. -/
theorem expression_of_done {term : Pass σ Code} (terms : FindsTerms context environment term) :
    FindsExpressions context environment (expressionOf term) := by
  intro before after code ready finished
  rw [expressionOf_eq] at finished
  obtain ⟨first, middle, ran, rest⟩ := run_bind_eq_done_iff.1 finished
  obtain ⟨tree, parsed⟩ := terms ready ran
  rw [run_iterate] at rest
  obtain ⟨others, later⟩ := operands_of_done terms _ (parsed.reads.ready ready) rest
  refine ⟨.mk tree others, ?_, ?_, ?_⟩
  · simpa [Expression.yield] using parsed.reads.trans later.reads
  · rw [Expression.demands, List.forall_mem_append]
    exact ⟨parsed.met, later.met⟩
  · rw [later.code, parsed.code, Expression.code]

/-! ## Calls -/

/-- A sum with a limit is the sum of the numbers where it is done. -/
theorem sum_eq_done_iff {items : Countable} {left right total : UInt16} :
    (sum items left right).run context before = .done total after ↔
      total.toNat = left.toNat + right.toNat ∧ after = before := by
  unfold sum
  by_cases small : left.toNat + right.toNat < 65536
  · rw [if_pos small, run_pure_eq_done_iff, ← UInt16.toNat_inj, UInt16.toNat_add,
      Nat.mod_eq_of_lt small]
  · rw [if_neg small]
    constructor
    · intro finished
      cases finished
    · rintro ⟨added, _⟩
      have bound := total.toNat_lt
      omega

/-- One argument of a call. -/
def argumentItem (expression : Pass σ Code) : Code × UInt16 → Pass σ (Code × UInt16) :=
  fun (code, count) => do
    let argument ← expression
    let count ← sum .arguments count 1
    pure (code ++ argument, count)

/-- A list of arguments is empty, or rounds of reading one argument. -/
theorem expressionList_eq (expression : Pass σ Code) :
    expressionList expression = (do
      if ← nextIs (.punctuation .rightParen) then
        pure (.empty, 0)
      else
        separated (argumentItem expression) (.empty, 0)) := rfl

/-- One more argument adds its code and one to the count. -/
theorem argumentItem_eq_done_iff {expression : Pass σ Code} {sofar result : Code}
    {count total : UInt16} :
    (argumentItem expression (sofar, count)).run context before = .done (result, total) after ↔
      ∃ argument, expression.run context before = .done argument after ∧
        result = sofar ++ argument ∧ total.toNat = count.toNat + 1 := by
  unfold argumentItem
  rw [run_bind_eq_done_iff]
  constructor
  · rintro ⟨argument, middle, ran, rest⟩
    obtain ⟨_, _, counted, last⟩ := run_bind_eq_done_iff.1 rest
    obtain ⟨added, rfl⟩ := sum_eq_done_iff.1 counted
    cases last
    exact ⟨argument, ran, rfl, added⟩
  · rintro ⟨argument, ran, rfl, added⟩
    exact ⟨argument, after, ran,
      run_bind_eq_done_iff.2 ⟨total, after, sum_eq_done_iff.2 ⟨added, rfl⟩, rfl⟩⟩

/-- The arguments of all rounds are a tree, by induction on the number of rounds. -/
theorem arguments_of_separated {expression : Pass σ Code}
    (expressions : FindsExpressions context environment expression) (rounds : Nat) {sofar : Code}
    {count total : UInt16} (ready : before.Ready context.source environment)
    (finished : (iterateFor (separatedStep (argumentItem expression)) rounds (sofar, count)).run
      context before = .done (code, total) after) :
    ∃ first others, Translates context.source environment before
      (Arguments.cons first others).yield ((Arguments.cons first others).demands environment)
      (sofar.toList ++ (Arguments.cons first others).code environment) code after ∧
      total.toNat = count.toNat + (Arguments.cons first others).count := by
  induction rounds generalizing before sofar count with
  | zero => exact absurd finished iterateFor_zero
  | succ rounds inductionHypothesis =>
      rcases separated_eq_done_iff.1 finished with
        ⟨ran, _⟩ | ⟨⟨next, number⟩, middle, later, ran, comma, rest⟩
      · obtain ⟨argument, parsedBy, rfl, counted⟩ := argumentItem_eq_done_iff.1 ran
        obtain ⟨tree, parsed⟩ := expressions ready parsedBy
        refine ⟨tree, .nil, ⟨?_, ?_, ?_⟩, ?_⟩
        · simpa [Arguments.yield, Arguments.following] using parsed.reads
        · simpa [Arguments.demands] using parsed.met
        · simp [Arguments.code, parsed.code]
        · simpa [Arguments.count] using counted
      · obtain ⟨argument, parsedBy, rfl, counted⟩ := argumentItem_eq_done_iff.1 ran
        obtain ⟨tree, parsed⟩ := expressions ready parsedBy
        have reads := parsed.reads.trans comma
        obtain ⟨second, others, parsedRest, totals⟩ :=
          inductionHypothesis (reads.ready ready) rest
        refine ⟨tree, .cons second others, ⟨?_, ?_, ?_⟩, ?_⟩
        · simpa [Arguments.yield, Arguments.following] using reads.trans parsedRest.reads
        · rw [Arguments.demands, List.forall_mem_append]
          exact ⟨parsed.met, parsedRest.met⟩
        · rw [parsedRest.code, Code.toList_append, parsed.code]
          simp [Arguments.code]
        · rw [totals, counted]
          simp only [Arguments.count]
          omega

/-- Arguments that are recognised have a tree, and are as many as were counted. -/
theorem arguments_of_done {expression : Pass σ Code}
    (expressions : FindsExpressions context environment expression) {total : UInt16}
    (ready : before.Ready context.source environment)
    (finished : (arguments expression).run context before = .done (code, total) after) :
    ∃ tree : Arguments, Translates context.source environment before
      ([.mark .leftParen] ++ tree.yield ++ [.mark .rightParen]) (tree.demands environment)
      (tree.code environment) code after ∧ total.toNat = tree.count := by
  obtain ⟨_, inside, opening, unopened⟩ := run_bind_eq_done_iff.1 finished
  obtain ⟨_, behind, ran, unclosed⟩ := run_bind_eq_done_iff.1 unopened
  obtain ⟨_, _, closing, last⟩ := run_bind_eq_done_iff.1 unclosed
  cases last
  have opened := reads_of_expectMark opening
  have closed := reads_of_expectMark closing
  rw [expressionList_eq, run_bind_of_done (run_nextIs _)] at ran
  split at ran
  · cases ran
    refine ⟨.nil, ⟨?_, by simp [Arguments.demands], by simp [Arguments.code]⟩,
      by simp [Arguments.count]⟩
    simpa [Arguments.yield] using opened.trans closed
  · rw [run_separated] at ran
    obtain ⟨first, others, parsed, totals⟩ :=
      arguments_of_separated expressions _ (opened.ready ready) ran
    refine ⟨.cons first others, ⟨(opened.trans parsed.reads).trans closed, parsed.met, ?_⟩, ?_⟩
    · simpa using parsed.code
    · simpa using totals

/-- The operand of a call that passes a number of words. -/
theorem eq_ofNat_of_toNat {total : UInt16} {words : Nat} (counted : total.toNat = words) :
    total = UInt16.ofNat words ∧ (Demand.countable words).Met environment := by
  have bound := total.toNat_lt
  refine ⟨by rw [← counted, UInt16.ofNat_toNat], ?_⟩
  simp only [Demand.Met, maxCount]
  omega

/-- Arguments that are passed behind a receiver have a tree, and the receiver is counted with them.
-/
theorem receiverArguments_of_done {expression : Pass σ Code}
    (expressions : FindsExpressions context environment expression)
    {finish : Code × UInt16 → UInt16 → Pass σ Code}
    (ready : before.Ready context.source environment)
    (finished : (do
      let passed ← arguments expression
      let total ← withReceiver passed.2
      finish passed total).run context before = .done code after) :
    ∃ (tree : Arguments) (passed : Code × UInt16) (closed : PassState σ),
      Translates context.source environment before
        ([.mark .leftParen] ++ tree.yield ++ [.mark .rightParen]) (tree.demands environment)
        (tree.code environment) passed.1 closed ∧
      (Demand.countable (tree.count + 1)).Met environment ∧
      (finish passed (UInt16.ofNat (tree.count + 1))).run context closed = .done code after := by
  obtain ⟨passed, closed, ran, counting⟩ := run_bind_eq_done_iff.1 finished
  obtain ⟨total, _, counted, rest⟩ := run_bind_eq_done_iff.1 counting
  obtain ⟨added, rfl⟩ := sum_eq_done_iff.1 counted
  obtain ⟨tree, parsed, counts⟩ := arguments_of_done expressions ready ran
  obtain ⟨operand, small⟩ := eq_ofNat_of_toNat (added.trans (congrArg (· + 1) counts))
  exact ⟨tree, passed, _, parsed, small, operand ▸ rest⟩

/-- Calls that are recognised have a tree if expressions do. -/
theorem call_of_done {expression : Pass σ Code}
    (expressions : FindsExpressions context environment expression)
    (ready : before.Ready context.source environment)
    (finished : (subroutineCall expression).run context before = .done code after) :
    ∃ tree : Call, Translates context.source environment before tree.yield
      (tree.demands environment) (tree.code environment) code after := by
  obtain ⟨first, named, readFirst, choice⟩ := run_bind_eq_done_iff.1 finished
  obtain ⟨dotted, behind, taken, chosen⟩ := run_bind_eq_done_iff.1 choice
  have owner := reads_of_name ready.legible readFirst
  rcases reads_of_takeMark taken with ⟨rfl, dot⟩ | ⟨rfl, _, same⟩
  · obtain ⟨subroutine, opened, readSecond, found⟩ := run_bind_eq_done_iff.1 chosen
    have qualified := owner.trans dot
    have prior := qualified.trans (reads_of_name (qualified.ready ready).legible readSecond)
    have continued := prior.ready ready
    rw [run_bind_of_done (run_lookup? first), continued.environment] at found
    cases receiver : environment.place? first with
    | some place =>
        simp only [receiver] at found
        obtain ⟨tree, passed, closed, parsed, small, last⟩ :=
          receiverArguments_of_done expressions continued found
        cases last
        refine ⟨.qualified first subroutine tree, ?_, ?_, ?_⟩
        · simpa [Call.yield] using prior.trans parsed.reads
        · simp only [Call.demands, List.forall_mem_append, List.forall_mem_singleton, receiver]
          exact ⟨parsed.met, small⟩
        · simp [Call.code, receiver, parsed.code]
    | none =>
        rw [receiver] at found
        obtain ⟨⟨passed, count⟩, closed, ran, last⟩ := run_bind_eq_done_iff.1 found
        cases last
        obtain ⟨tree, parsed, counts⟩ := arguments_of_done expressions continued ran
        obtain ⟨operand, small⟩ := eq_ofNat_of_toNat counts
        refine ⟨.qualified first subroutine tree, ?_, ?_, ?_⟩
        · simpa [Call.yield] using prior.trans parsed.reads
        · simp only [Call.demands, List.forall_mem_append, List.forall_mem_singleton, receiver]
          exact ⟨parsed.met, small⟩
        · simp [Call.code, receiver, parsed.code, operand]
  · simp only [same, Bool.false_eq_true, if_false] at chosen
    obtain ⟨tree, passed, closed, parsed, small, naming⟩ :=
      receiverArguments_of_done expressions (owner.ready ready) chosen
    have reads := owner.trans parsed.reads
    rw [run_bind_of_done run_className, (reads.ready ready).environment] at naming
    obtain ⟨emitted, stop⟩ := run_pure_eq_done_iff.1 naming
    rw [emitted, stop]
    refine ⟨.own first tree, ?_, ?_, ?_⟩
    · simpa [Call.yield] using reads
    · simp only [Call.demands, List.forall_mem_append, List.forall_mem_singleton]
      exact ⟨parsed.met, small⟩
    · simp [Call.code, parsed.code]

/-! ## Terms -/

/-- A name in front of an index is an array. -/
theorem element_of_done {expression : Pass σ Code}
    (expressions : FindsExpressions context environment expression) {array : String}
    {place : Variable} (found : environment.place? array = some place)
    (ready : before.Ready context.source environment)
    (read : before.Reads context.source [.name array] middle)
    (bracket : middle.nextKind? = some (.punctuation .leftBracket))
    (finished : (arrayElement expression place).run context middle = .done code after) :
    ∃ tree : Term, Translates context.source environment before tree.yield
      (tree.demands environment) (tree.code environment) code after := by
  obtain ⟨token, inside, opening, unopened⟩ := run_bind_eq_done_iff.1 finished
  obtain ⟨offset, behind, ran, unclosed⟩ := run_bind_eq_done_iff.1 unopened
  obtain ⟨_, _, closing, last⟩ := run_bind_eq_done_iff.1 unclosed
  cases last
  have kind := nextKind?_of_advance opening
  rw [bracket, Option.some.injEq] at kind
  have prior := read.trans (reads_of_advanceMark kind.symm opening)
  obtain ⟨index, parsed⟩ := expressions (prior.ready ready) ran
  have reads := (prior.trans parsed.reads).trans (reads_of_expectMark closing)
  refine ⟨.element array index, ?_, ?_, ?_⟩
  · simpa [Term.yield] using reads
  · simp only [Term.demands, List.forall_mem_cons]
    exact ⟨by simp [Demand.Met, found], parsed.met⟩
  · simp [Term.code, Environment.load, found, parsed.code]

/-- What a name begins shows from the token behind it. -/
theorem nameTerm_of_done {expression : Pass σ Code}
    (expressions : FindsExpressions context environment expression) {token : Token}
    {text : String} (shown : token.terminal? context.source = some (.name text))
    (ready : before.Ready context.source environment)
    (read : before.Reads context.source [.name text] middle)
    (finished : (nameTerm expression token).run context middle = .done code after) :
    ∃ tree : Term, Translates context.source environment before tree.yield
      (tree.demands environment) (tree.code environment) code after := by
  have same : middle.environment = environment := (read.ready ready).environment
  have back := unread_of_reads read
  unfold nameTerm at finished
  rw [run_bind_of_done run_peek?] at finished
  split at finished
  · next bracket =>
      obtain ⟨place, _, resolved, ran⟩ := run_bind_eq_done_iff.1 finished
      obtain ⟨found, rfl⟩ := (resolve_eq_done_iff shown).1 resolved
      rw [same] at found
      exact element_of_done expressions found ready read bracket ran
  · rw [run_bind_of_done back] at finished
    obtain ⟨call, parsed⟩ := call_of_done expressions ready finished
    exact ⟨.call call, parsed.reads, parsed.met, parsed.code⟩
  · rw [run_bind_of_done back] at finished
    obtain ⟨call, parsed⟩ := call_of_done expressions ready finished
    exact ⟨.call call, parsed.reads, parsed.met, parsed.code⟩
  · obtain ⟨place, _, resolved, last⟩ := run_bind_eq_done_iff.1 finished
    obtain ⟨found, rfl⟩ := (resolve_eq_done_iff shown).1 resolved
    rw [same] at found
    cases last
    refine ⟨.name text, read, ?_, ?_⟩
    · simp [Term.demands, Demand.Met, found]
    · simp [Term.code, Environment.load, found]

/-- A string constant is done with the code of its contents. -/
theorem stringTerm_eq_done_iff {token : Token} {contents : String}
    (shown : token.terminal? context.source = some (.string contents)) :
    (stringTerm token).run context before = .done code after ↔
      code.toList = stringCode contents ∧ after = before := by
  obtain ⟨isContents, short⟩ := Token.contents?_of_string shown
  have built : Code.stringConstant? contents = some (Code.ofList (stringCode contents)) := by
    rw [Code.stringConstant?_eq, if_pos short]
    rfl
  have ran : (stringTerm token).run context before =
      .done (Code.ofList (stringCode contents)) before := by
    unfold stringTerm
    rw [run_bind_of_done (run_context context before), isContents, run_bind_of_done run_required,
      built]
    rfl
  rw [ran]
  constructor
  · rintro ⟨⟩
    simp
  · rintro ⟨same, rfl⟩
    rw [Code.toList_injective (same.trans (Code.toList_ofList _).symm)]

/-- Terms of any depth find trees, by induction on the depth. -/
theorem term_of_done (depth : Nat) : FindsTerms context environment (term (σ := σ) depth) := by
  induction depth with
  | zero =>
      intro before after code _ finished
      cases finished
  | succ depth inductionHypothesis =>
      intro before after code ready finished
      have expressions := expression_of_done inductionHypothesis
      obtain ⟨token, middle, read, rest⟩ := run_bind_eq_done_iff.1 finished
      obtain ⟨terminal, shown, move⟩ := reads_of_advance ready.legible read
      have continued := move.ready ready
      have kind := Token.kind_of_terminal? shown
      split at rest
      · next constant isConstant =>
          cases rest
          rw [kind, KeywordConstant.ofKind?_eq_some_iff] at isConstant
          rw [Terminal.eq_keyword_of_kind isConstant] at move
          exact ⟨.constant constant, move, by simp [Term.demands], by simp [Term.code]⟩
      · split at rest
        · next operator isOperator =>
            obtain ⟨operand, _, ran, last⟩ := run_bind_eq_done_iff.1 rest
            cases last
            rw [kind, UnaryOperator.ofKind?_eq_some_iff] at isOperator
            rw [Terminal.eq_mark_of_kind isOperator] at move
            obtain ⟨tree, parsed⟩ := inductionHypothesis continued ran
            refine ⟨.unary operator tree, move.trans parsed.reads, parsed.met, ?_⟩
            simp [Term.code, parsed.code]
        · rw [kind] at rest
          cases terminal with
          | keyword word => cases rest
          | integer value =>
              cases rest
              exact ⟨.integer value, move, by simp [Term.demands], by simp [Term.code]⟩
          | string contents =>
              obtain ⟨built, rfl⟩ := (stringTerm_eq_done_iff shown).1 rest
              exact ⟨.string contents, move, by simp [Term.demands], by simp [Term.code, built]⟩
          | name text => exact nameTerm_of_done expressions shown ready move rest
          | mark sign =>
              cases sign with
              | leftParen =>
                  obtain ⟨inner, _, ran, unclosed⟩ := run_bind_eq_done_iff.1 rest
                  obtain ⟨_, _, closing, last⟩ := run_bind_eq_done_iff.1 unclosed
                  cases last
                  obtain ⟨tree, parsed⟩ := expressions continued ran
                  refine ⟨.group tree, ?_, parsed.met, parsed.code⟩
                  simpa [Term.yield] using
                    (move.trans parsed.reads).trans (reads_of_expectMark closing)
              | _ => cases rest

/-- Expressions find trees. -/
theorem wholeExpression_of_done :
    FindsExpressions context environment (expression (σ := σ)) := by
  intro before after code ready finished
  exact expression_of_done (term_of_done context.bound) ready finished

end Pass

end JackCompiler
