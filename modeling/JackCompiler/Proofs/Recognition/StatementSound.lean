import JackCompiler.Compilation.Statement
import JackCompiler.Proofs.Generation.Numbering
import JackCompiler.Proofs.Recognition.ExpressionSound

/-!
# Recognised statements have trees

As for expressions, with labels: a recogniser of statements that is done has also drawn as many
labels as its tree has, and numbered them in the order of the tree.
-/

namespace JackCompiler

open Grammar

namespace PassState

variable {σ : Type} {source : String} {before middle after : PassState σ}

/-- Moving over terminals while labels may be drawn. -/
structure Passes (source : String) (before : PassState σ) (terminals : List Terminal)
    (after : PassState σ) : Prop where
  stream : before.stream.Reads source terminals after.stream
  scope : after.scope = before.scope
  className : after.className = before.className

theorem Reads.passes {terminals : List Terminal} (move : before.Reads source terminals after) :
    before.Passes source terminals after where
  stream := move.stream
  scope := by rw [move.others]
  className := by rw [move.others]

/-- Moving over terminals draws no label. -/
theorem Reads.labels {terminals : List Terminal} (move : before.Reads source terminals after) :
    after.labels = before.labels := by
  rw [move.others]

namespace Passes

/-- Passing over two parts is passing over one and then over the other. -/
theorem trans {first second : List Terminal} (one : before.Passes source first middle)
    (two : middle.Passes source second after) : before.Passes source (first ++ second) after where
  stream := one.stream.trans two.stream
  scope := two.scope.trans one.scope
  className := two.className.trans one.className

/-- What is passed over leaves the environment as it was. -/
theorem environment {terminals : List Terminal} (move : before.Passes source terminals after) :
    after.environment = before.environment := by
  simp only [PassState.environment, move.scope, move.className]

/-- What is passed over leaves the state ready for the same environment. -/
theorem ready {terminals : List Terminal} {environment : Environment}
    (move : before.Passes source terminals after) (start : before.Ready source environment) :
    after.Ready source environment :=
  ⟨move.stream.legible start.legible, move.environment.trans start.environment⟩

end Passes

end PassState

namespace Pass

variable {σ : Type} {number : Nat} {context : PassContext} {environment : Environment}
  {before middle after : PassState σ} {code : Code}

/-! ## Statements without labels -/

/-- A statement that draws no labels was translated, from its keyword on. -/
def FoundPlain (source : String) (environment : Environment) (label : Nat → Label) (number : Nat)
    (before : PassState σ) (code : Code) (after : PassState σ) : Prop :=
  ∃ tree : Statement, tree.labelCount = 0 ∧
    Translates source environment before tree.yield (tree.demands environment)
      (tree.code environment label number) code after

/-- The rest of an assignment to an array element reads an index and a value. -/
theorem elementAssignment_of_done {place : Variable}
    (ready : before.Ready context.source environment)
    (finished : (elementAssignment place).run context before = .done code after) :
    ∃ index value : Expression, Translates context.source environment before
      (index.yield ++ [.mark .rightBracket, .mark .equals] ++ value.yield)
      (index.demands environment ++ value.demands environment)
      ([.push place.segment place.index] ++ index.code environment ++ [.command .add] ++
        value.code environment ++
        [.pop .temp 0, .pop .pointer 1, .push .temp 0, .pop .that 0]) code after := by
  obtain ⟨offset, _, indexing, unbracketed⟩ := run_bind_eq_done_iff.1 finished
  obtain ⟨_, _, bracketing, unequated⟩ := run_bind_eq_done_iff.1 unbracketed
  obtain ⟨_, _, equating, valued⟩ := run_bind_eq_done_iff.1 unequated
  obtain ⟨right, _, evaluating, last⟩ := run_bind_eq_done_iff.1 valued
  cases last
  obtain ⟨index, first⟩ := wholeExpression_of_done ready indexing
  have equated := (first.reads.trans (reads_of_expectMark bracketing)).trans
    (reads_of_expectMark equating)
  obtain ⟨value, second⟩ := wholeExpression_of_done (equated.ready ready) evaluating
  refine ⟨index, value, ?_, ?_, ?_⟩
  · simpa using equated.trans second.reads
  · rw [List.forall_mem_append]
    exact ⟨first.met, second.met⟩
  · simp [first.code, second.code]

/-- An assignment to a variable is the value behind an equals sign. -/
theorem variableAssignment_of_done {place : Variable}
    (ready : before.Ready context.source environment)
    (finished : (variableAssignment place).run context before = .done code after) :
    ∃ value : Expression, Translates context.source environment before
      ([.mark .equals] ++ value.yield) (value.demands environment)
      (value.code environment ++ [.pop place.segment place.index]) code after := by
  obtain ⟨_, _, equating, valued⟩ := run_bind_eq_done_iff.1 finished
  obtain ⟨right, _, evaluating, last⟩ := run_bind_eq_done_iff.1 valued
  cases last
  have equated := reads_of_expectMark equating
  obtain ⟨value, parsed⟩ := wholeExpression_of_done (equated.ready ready) evaluating
  exact ⟨value, equated.trans parsed.reads, parsed.met, by simp [parsed.code]⟩

/-- An assignment that is recognised has a tree. -/
theorem let_of_done {label : Nat → Label} (ready : before.Ready context.source environment)
    (word : before.Reads context.source [.keyword .let] middle)
    (finished : letStatement.run context middle = .done code after) :
    FoundPlain context.source environment label number before code after := by
  obtain ⟨token, named, read, resolving⟩ := run_bind_eq_done_iff.1 finished
  obtain ⟨place, _, resolved, choice⟩ := run_bind_eq_done_iff.1 resolving
  obtain ⟨terminal, shown, kind, move⟩ := reads_of_expect (word.ready ready).legible read
  obtain ⟨target, rfl⟩ := Terminal.exists_name_of_kind kind
  have prior := word.trans move
  obtain ⟨found, rfl⟩ := (resolve_eq_done_iff shown).1 resolved
  rw [(prior.ready ready).environment] at found
  have visible : (Demand.visible target).Met environment := by simp [Demand.Met, found]
  obtain ⟨indexed, chosen, taken, assigning⟩ := run_bind_eq_done_iff.1 choice
  rcases reads_of_takeMark taken with ⟨rfl, bracket⟩ | ⟨rfl, _, same⟩
  · obtain ⟨_, assigned, ran, ending⟩ := run_bind_eq_done_iff.1 assigning
    obtain ⟨_, _, closing, last⟩ := run_bind_eq_done_iff.1 ending
    cases last
    have opened := prior.trans bracket
    obtain ⟨index, value, parsed⟩ := elementAssignment_of_done (opened.ready ready) ran
    refine ⟨.assignElement target index value, rfl, ?_, ?_, ?_⟩
    · simpa [Statement.yield] using
        (opened.trans parsed.reads).trans (reads_of_expectMark closing)
    · simp only [Statement.demands, List.cons_append, List.forall_mem_cons]
      exact ⟨visible, parsed.met⟩
    · simp [Statement.code, Environment.load, found, parsed.code]
  · obtain ⟨_, assigned, ran, ending⟩ := run_bind_eq_done_iff.1 assigning
    obtain ⟨_, _, closing, last⟩ := run_bind_eq_done_iff.1 ending
    cases last
    rw [same] at ran
    obtain ⟨value, parsed⟩ := variableAssignment_of_done (prior.ready ready) ran
    refine ⟨.assign target value, rfl, ?_, ?_, ?_⟩
    · simpa [Statement.yield] using
        (prior.trans parsed.reads).trans (reads_of_expectMark closing)
    · simp only [Statement.demands, List.forall_mem_cons]
      exact ⟨visible, parsed.met⟩
    · simp [Statement.code, Environment.store, found, parsed.code]

/-- A call that is recognised as a statement has a tree. -/
theorem do_of_done {label : Nat → Label} (ready : before.Ready context.source environment)
    (word : before.Reads context.source [.keyword .do] middle)
    (finished : doStatement.run context middle = .done code after) :
    FoundPlain context.source environment label number before code after := by
  obtain ⟨called, _, ran, ending⟩ := run_bind_eq_done_iff.1 finished
  obtain ⟨_, _, closing, last⟩ := run_bind_eq_done_iff.1 ending
  cases last
  obtain ⟨call, parsed⟩ := call_of_done wholeExpression_of_done (word.ready ready) ran
  refine ⟨.perform call, rfl, ?_, parsed.met, ?_⟩
  · simpa [Statement.yield] using
      (word.trans parsed.reads).trans (reads_of_expectMark closing)
  · simp [Statement.code, parsed.code]

/-- A return that is recognised has a tree, with a value or without. -/
theorem return_of_done {label : Nat → Label} (ready : before.Ready context.source environment)
    (word : before.Reads context.source [.keyword .return] middle)
    (finished : returnStatement.run context middle = .done code after) :
    FoundPlain context.source environment label number before code after := by
  obtain ⟨empty, chosen, taken, rest⟩ := run_bind_eq_done_iff.1 finished
  rcases reads_of_takeMark taken with ⟨rfl, semicolon⟩ | ⟨rfl, _, same⟩
  · cases rest
    refine ⟨.return none, rfl, ?_, by simp [Statement.demands], by simp [Statement.code]⟩
    simpa [Statement.yield] using word.trans semicolon
  · obtain ⟨value, _, evaluating, ending⟩ := run_bind_eq_done_iff.1 rest
    obtain ⟨_, _, closing, last⟩ := run_bind_eq_done_iff.1 ending
    cases last
    rw [same] at evaluating
    obtain ⟨tree, parsed⟩ := wholeExpression_of_done (word.ready ready) evaluating
    refine ⟨.return (some tree), rfl, ?_, ?_, ?_⟩
    · simpa [Statement.yield] using
        (word.trans parsed.reads).trans (reads_of_expectMark closing)
    · simpa [Statement.demands] using parsed.met
    · simp [Statement.code, parsed.code]

/-- A test that is recognised has the tree of its expression, and its code is negated. -/
theorem condition_of_done (ready : before.Ready context.source environment)
    (finished : condition.run context before = .done code after) :
    ∃ tree : Expression, Translates context.source environment before
      ([.mark .leftParen] ++ tree.yield ++ [.mark .rightParen]) (tree.demands environment)
      (tree.code environment ++ [.command .not]) code after := by
  obtain ⟨_, inside, opening, unopened⟩ := run_bind_eq_done_iff.1 finished
  obtain ⟨_, behind, ran, unclosed⟩ := run_bind_eq_done_iff.1 unopened
  obtain ⟨_, _, closing, last⟩ := run_bind_eq_done_iff.1 unclosed
  cases last
  have opened := reads_of_expectMark opening
  obtain ⟨tree, parsed⟩ := wholeExpression_of_done (opened.ready ready) ran
  refine ⟨tree, (opened.trans parsed.reads).trans (reads_of_expectMark closing), parsed.met, ?_⟩
  rw [Code.toList_unary, parsed.code]
  rfl

end Pass

/-- What was emitted while moving over a phrase that draws labels from a number on, given the yield,
the demands, the number of labels and the code of a tree of the phrase. -/
structure Builds {σ : Type} [LabelSource σ] (numbering : LabelSource.Numbering σ) (number : Nat)
    (source : String) (environment : Environment) (before : PassState σ) (yield : List Terminal)
    (demands : List Demand) (labelCount : Nat) (expected : List Instruction) (code : Code)
    (after : PassState σ) : Prop where
  passes : before.Passes source yield after
  met : ∀ demand ∈ demands, demand.Met environment
  labels : numbering.Stands (number + labelCount) after.labels
  code : code.toList = expected

/-- A phrase without labels draws none. -/
theorem Translates.builds {σ : Type} [LabelSource σ] {numbering : LabelSource.Numbering σ}
    {number : Nat} {source : String} {environment : Environment} {before after : PassState σ}
    {yield : List Terminal} {demands : List Demand} {expected : List Instruction} {code : Code}
    (parsed : Translates source environment before yield demands expected code after)
    (stands : numbering.Stands number before.labels) :
    Builds numbering number source environment before yield demands 0 expected code after where
  passes := parsed.reads.passes
  met := parsed.met
  labels := by
    rw [parsed.reads.labels]
    exact stands
  code := parsed.code

namespace Pass

variable {σ : Type} [LabelSource σ] {numbering : LabelSource.Numbering σ} {number : Nat}
  {context : PassContext} {environment : Environment} {before middle after : PassState σ}
  {code : Code}

/-! ## Statements with labels -/

/-- A part that is done has built statements. -/
def FindsStatements (numbering : LabelSource.Numbering σ) (context : PassContext)
    (environment : Environment) (part : Pass σ Code) : Prop :=
  ∀ ⦃number before after code⦄, before.Ready context.source environment →
    numbering.Stands number before.labels → part.run context before = .done code after →
    ∃ tree : Statements, Builds numbering number context.source environment before tree.yield
      (tree.demands environment) tree.labelCount (tree.code environment numbering.label number)
      code after

/-- A part that is done has built statements in braces. -/
def FindsBlocks (numbering : LabelSource.Numbering σ) (context : PassContext)
    (environment : Environment) (part : Pass σ Code) : Prop :=
  ∀ ⦃number before after code⦄, before.Ready context.source environment →
    numbering.Stands number before.labels → part.run context before = .done code after →
    ∃ tree : Statements, Builds numbering number context.source environment before
      ([.mark .leftBrace] ++ tree.yield ++ [.mark .rightBrace]) (tree.demands environment)
      tree.labelCount (tree.code environment numbering.label number) code after

/-- A label that is drawn is the one of the number that stands next. -/
theorem draw_of_done {label : Label} (stands : numbering.Stands number before.labels)
    (finished : draw.run context before = .done label after) :
    label = numbering.label number ∧ numbering.Stands (number + 1) after.labels ∧
      before.Passes context.source [] after := by
  unfold draw at finished
  rw [run_bind_of_done (run_state context before)] at finished
  split at finished
  · next drawn labels step =>
      cases finished
      obtain ⟨same, next⟩ := numbering.draws stands step
      exact ⟨same, next, .nil _, rfl, rfl⟩
  · cases finished

/-- Blocks find trees if statements do. -/
theorem block_of_done {statements : Pass σ Code}
    (inner : FindsStatements numbering context environment statements) :
    FindsBlocks numbering context environment (blockOf statements) := by
  intro number before after code ready stands finished
  obtain ⟨_, inside, opening, unopened⟩ := run_bind_eq_done_iff.1 finished
  obtain ⟨_, behind, ran, unclosed⟩ := run_bind_eq_done_iff.1 unopened
  obtain ⟨_, _, closing, last⟩ := run_bind_eq_done_iff.1 unclosed
  cases last
  have opened := reads_of_expectMark opening
  have closed := reads_of_expectMark closing
  obtain ⟨tree, built⟩ := inner (opened.ready ready) (opened.labels ▸ stands) ran
  refine ⟨tree, (opened.passes.trans built.passes).trans closed.passes, built.met, ?_,
    built.code⟩
  rw [closed.labels]
  exact built.labels

/-- A choice that is recognised has a tree, whose labels are drawn before those of its blocks. -/
theorem if_of_done {block : Pass σ Code} (blocks : FindsBlocks numbering context environment block)
    (ready : before.Ready context.source environment)
    (stands : numbering.Stands number before.labels)
    (word : before.Reads context.source [.keyword .if] middle)
    (finished : (ifStatement block).run context middle = .done code after) :
    ∃ tree : Statement, Builds numbering number context.source environment before tree.yield
      (tree.demands environment) tree.labelCount (tree.code environment numbering.label number)
      code after := by
  obtain ⟨otherwise, _, first, drawing⟩ := run_bind_eq_done_iff.1 finished
  obtain ⟨done, drawn, second, testing⟩ := run_bind_eq_done_iff.1 drawing
  obtain ⟨rfl, stands, one⟩ := draw_of_done (word.labels ▸ stands) first
  obtain ⟨rfl, stands, two⟩ := draw_of_done stands second
  have labelled := (word.passes.trans one).trans two
  obtain ⟨test, tested, conditional, blocking⟩ := run_bind_eq_done_iff.1 testing
  obtain ⟨body, blocked, consequence, choosing⟩ := run_bind_eq_done_iff.1 blocking
  obtain ⟨condition, parsed⟩ := condition_of_done (labelled.ready ready) conditional
  have untested := labelled.trans parsed.reads.passes
  obtain ⟨inner, built⟩ := blocks (untested.ready ready) (parsed.reads.labels ▸ stands) consequence
  have unblocked := untested.trans built.passes
  obtain ⟨answer, taken, choice, chosen⟩ := run_bind_eq_done_iff.1 choosing
  rcases reads_of_takeKeyword (unblocked.ready ready).legible choice with
    ⟨rfl, otherwise⟩ | ⟨rfl, _, same⟩
  · obtain ⟨alternative, _, ran, last⟩ := run_bind_eq_done_iff.1 chosen
    cases last
    have prior := unblocked.trans otherwise.passes
    obtain ⟨other, builtOther⟩ := blocks (prior.ready ready) (otherwise.labels ▸ built.labels) ran
    refine ⟨.choice condition inner (.present other), ?_, ?_, ?_, ?_⟩
    · simpa [Statement.yield, Alternative.yield] using prior.trans builtOther.passes
    · simp only [Statement.demands, Alternative.demands, List.forall_mem_append]
      exact ⟨⟨parsed.met, built.met⟩, builtOther.met⟩
    · simpa [Statement.labelCount, Alternative.labelCount, Nat.add_assoc] using builtOther.labels
    · simp [Statement.code, Alternative.code, parsed.code, built.code, builtOther.code,
        Nat.add_assoc]
  · cases chosen
    rw [same]
    refine ⟨.choice condition inner .absent, ?_, ?_, ?_, ?_⟩
    · simpa [Statement.yield, Alternative.yield] using unblocked
    · simp only [Statement.demands, Alternative.demands, List.append_nil, List.forall_mem_append]
      exact ⟨parsed.met, built.met⟩
    · simpa [Statement.labelCount, Alternative.labelCount, Nat.add_assoc] using built.labels
    · simp [Statement.code, Alternative.code, parsed.code, built.code, Nat.add_assoc]

/-- A loop that is recognised has a tree, whose labels are drawn before those of its block. -/
theorem while_of_done {block : Pass σ Code}
    (blocks : FindsBlocks numbering context environment block)
    (ready : before.Ready context.source environment)
    (stands : numbering.Stands number before.labels)
    (word : before.Reads context.source [.keyword .while] middle)
    (finished : (whileStatement block).run context middle = .done code after) :
    ∃ tree : Statement, Builds numbering number context.source environment before tree.yield
      (tree.demands environment) tree.labelCount (tree.code environment numbering.label number)
      code after := by
  obtain ⟨top, _, first, drawing⟩ := run_bind_eq_done_iff.1 finished
  obtain ⟨bottom, drawn, second, testing⟩ := run_bind_eq_done_iff.1 drawing
  obtain ⟨rfl, stands, one⟩ := draw_of_done (word.labels ▸ stands) first
  obtain ⟨rfl, stands, two⟩ := draw_of_done stands second
  have labelled := (word.passes.trans one).trans two
  obtain ⟨test, tested, conditional, blocking⟩ := run_bind_eq_done_iff.1 testing
  obtain ⟨body, blocked, repeated, last⟩ := run_bind_eq_done_iff.1 blocking
  cases last
  obtain ⟨condition, parsed⟩ := condition_of_done (labelled.ready ready) conditional
  have untested := labelled.trans parsed.reads.passes
  obtain ⟨inner, built⟩ := blocks (untested.ready ready) (parsed.reads.labels ▸ stands) repeated
  refine ⟨.loop condition inner, ?_, ?_, ?_, ?_⟩
  · simpa [Statement.yield] using untested.trans built.passes
  · simp only [Statement.demands, List.forall_mem_append]
    exact ⟨parsed.met, built.met⟩
  · simpa [Statement.labelCount, Nat.add_assoc] using built.labels
  · simp [Statement.code, parsed.code, built.code, Nat.add_assoc]

/-! ## Sequences of statements -/

/-- A round of statements. -/
def statementStep (block : Pass σ Code) (code : Code) : Pass σ (Code ⊕ Code) := do
  match (← advance).kind with
  | .keyword .let => do pure (.inl (code ++ (← letStatement)))
  | .keyword .if => do pure (.inl (code ++ (← ifStatement block)))
  | .keyword .while => do pure (.inl (code ++ (← whileStatement block)))
  | .keyword .do => do pure (.inl (code ++ (← doStatement)))
  | .keyword .return => do pure (.inl (code ++ (← returnStatement)))
  | _ => do
      unread
      pure (.inr code)

/-- Statements are rounds of reading one statement. -/
theorem run_statementsOf (block : Pass σ Code) :
    (statementsOf block).run context before =
      (iterateFor (statementStep block) context.bound .empty).run context before := rfl

/-- A statement that draws no labels builds its tree with whatever number stands next. -/
theorem FoundPlain.builds
    (found : FoundPlain context.source environment numbering.label number before code after)
    (stands : numbering.Stands number before.labels) :
    ∃ tree : Statement, Builds numbering number context.source environment before tree.yield
      (tree.demands environment) tree.labelCount (tree.code environment numbering.label number)
      code after := by
  obtain ⟨tree, none, parsed⟩ := found
  exact ⟨tree, none ▸ parsed.builds stands⟩

/-- A round reads a statement or nothing. -/
theorem statementStep_of_done {block : Pass σ Code}
    (blocks : FindsBlocks numbering context environment block) {sofar : Code}
    {outcome : Code ⊕ Code} (ready : before.Ready context.source environment)
    (stands : numbering.Stands number before.labels)
    (finished : (statementStep block sofar).run context before = .done outcome after) :
    (outcome = .inr sofar ∧ after = before) ∨
    ∃ (emitted : Code) (tree : Statement), outcome = .inl (sofar ++ emitted) ∧
      Builds numbering number context.source environment before tree.yield
        (tree.demands environment) tree.labelCount (tree.code environment numbering.label number)
        emitted after := by
  obtain ⟨token, middle, read, choice⟩ := run_bind_eq_done_iff.1 finished
  obtain ⟨terminal, shown, move⟩ := reads_of_advance ready.legible read
  have kind := Token.kind_of_terminal? shown
  have word {keyword : Keyword} (isWord : token.kind = .keyword keyword) :
      before.Reads context.source [.keyword keyword] middle := by
    rw [← Terminal.eq_keyword_of_kind (kind.symm.trans isWord)]
    exact move
  split at choice
  · next isLet =>
      obtain ⟨emitted, _, ran, last⟩ := run_bind_eq_done_iff.1 choice
      cases last
      obtain ⟨tree, built⟩ := (let_of_done ready (word isLet) ran).builds stands
      exact .inr ⟨emitted, tree, rfl, built⟩
  · next isIf =>
      obtain ⟨emitted, _, ran, last⟩ := run_bind_eq_done_iff.1 choice
      cases last
      obtain ⟨tree, built⟩ := if_of_done blocks ready stands (word isIf) ran
      exact .inr ⟨emitted, tree, rfl, built⟩
  · next isWhile =>
      obtain ⟨emitted, _, ran, last⟩ := run_bind_eq_done_iff.1 choice
      cases last
      obtain ⟨tree, built⟩ := while_of_done blocks ready stands (word isWhile) ran
      exact .inr ⟨emitted, tree, rfl, built⟩
  · next isDo =>
      obtain ⟨emitted, _, ran, last⟩ := run_bind_eq_done_iff.1 choice
      cases last
      obtain ⟨tree, built⟩ := (do_of_done ready (word isDo) ran).builds stands
      exact .inr ⟨emitted, tree, rfl, built⟩
  · next isReturn =>
      obtain ⟨emitted, _, ran, last⟩ := run_bind_eq_done_iff.1 choice
      cases last
      obtain ⟨tree, built⟩ := (return_of_done ready (word isReturn) ran).builds stands
      exact .inr ⟨emitted, tree, rfl, built⟩
  · rw [run_bind_of_done (unread_of_reads move)] at choice
    cases choice
    exact .inl ⟨rfl, rfl⟩

/-- The statements of all rounds are a tree, by induction on the number of rounds. -/
theorem statements_of_rounds {block : Pass σ Code}
    (blocks : FindsBlocks numbering context environment block) (rounds : Nat) {sofar : Code}
    (ready : before.Ready context.source environment)
    (stands : numbering.Stands number before.labels)
    (finished : (iterateFor (statementStep block) rounds sofar).run context before =
      .done code after) :
    ∃ tree : Statements, Builds numbering number context.source environment before tree.yield
      (tree.demands environment) tree.labelCount
      (sofar.toList ++ tree.code environment numbering.label number) code after := by
  induction rounds generalizing before sofar number with
  | zero => exact absurd finished iterateFor_zero
  | succ rounds inductionHypothesis =>
      rcases iterateFor_eq_done_iff.1 finished with last | ⟨next, middle, round, others⟩
      · rcases statementStep_of_done blocks ready stands last with
          ⟨same, rfl⟩ | ⟨_, _, impossible, _⟩
        · cases same
          exact ⟨.nil, ⟨.nil _, rfl, rfl⟩, by simp [Statements.demands], stands,
            by simp [Statements.code]⟩
        · cases impossible
      · rcases statementStep_of_done blocks ready stands round with
          ⟨impossible, _⟩ | ⟨emitted, tree, same, built⟩
        · cases impossible
        · cases same
          obtain ⟨rest, later⟩ :=
            inductionHypothesis (built.passes.ready ready) built.labels others
          refine ⟨.cons tree rest, ?_, ?_, ?_, ?_⟩
          · simpa [Statements.yield] using built.passes.trans later.passes
          · rw [Statements.demands, List.forall_mem_append]
            exact ⟨built.met, later.met⟩
          · rw [Statements.labelCount, ← Nat.add_assoc]
            exact later.labels
          · rw [later.code, Code.toList_append, built.code]
            simp [Statements.code]

/-- Statements of any depth find trees, by induction on the depth. -/
theorem statementsWithin_of_done (depth : Nat) :
    FindsStatements numbering context environment (statementsWithin depth) := by
  induction depth with
  | zero =>
      intro number before after code _ _ finished
      cases finished
  | succ depth inductionHypothesis =>
      intro number before after code ready stands finished
      rw [statementsWithin, run_statementsOf] at finished
      obtain ⟨tree, built⟩ :=
        statements_of_rounds (block_of_done inductionHypothesis) _ ready stands finished
      exact ⟨tree, built.passes, built.met, built.labels, by simpa using built.code⟩

/-- Statements find trees. -/
theorem statements_of_done : FindsStatements numbering context environment statements := by
  intro number before after code ready stands finished
  exact statementsWithin_of_done context.bound ready stands finished

end Pass

end JackCompiler
