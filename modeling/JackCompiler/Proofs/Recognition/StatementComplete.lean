import JackCompiler.Proofs.Recognition.ExpressionComplete
import JackCompiler.Proofs.Recognition.StatementSound

/-!
# Statements with trees are recognised

As for expressions, with labels: a recogniser of statements is done unless the labels run out. What
is drawn does not matter for what is recognised, so states are compared up to their labels.
-/

namespace JackCompiler

open Grammar

namespace PassState

variable {σ : Type} {source : String} {before after : PassState σ}

/-- The same state with other labels. -/
def withLabels (state : PassState σ) (labels : σ) : PassState σ := { state with labels }

/-- Moving over terminals is possible with any labels. -/
theorem Reads.withLabels {terminals : List Terminal}
    (move : before.Reads source terminals after) (labels : σ) :
    (before.withLabels labels).Reads source terminals (after.withLabels labels) := by
  refine ⟨move.stream, ?_⟩
  rw [move.others]
  rfl

end PassState

/-- What is offered is offered with any labels. -/
theorem Offers.withLabels {σ : Type} {context : PassContext} {environment : Environment}
    {before after : PassState σ} {yield : List Terminal} {demands : List Demand}
    (offered : Offers context environment before yield demands after) (labels : σ) :
    Offers context environment (before.withLabels labels) yield demands
      (after.withLabels labels) :=
  ⟨offered.reads.withLabels labels, offered.names, offered.met, offered.room⟩

namespace Pass

section Ends

variable {σ α β : Type} {context : PassContext} {before middle : PassState σ}

/-- A part of the pass is done, with what is said of its value and its last state, unless the labels
run out. -/
def Ends (context : PassContext) (before : PassState σ) (part : Pass σ α)
    (finished : α → PassState σ → Prop) : Prop :=
  match part.run context before with
  | .done value after => finished value after
  | .halted reason _ => reason = .broken .labelsExhausted

/-- A part that is done ends as its state does. -/
theorem ends_of_done {part : Pass σ α} {finished : α → PassState σ → Prop} {value : α}
    (ran : part.run context before = .done value middle) (reached : finished value middle) :
    part.Ends context before finished := by
  unfold Ends
  rw [ran]
  exact reached

/-- A value alone ends at once. -/
theorem ends_pure {value : α} {finished : α → PassState σ → Prop}
    (reached : finished value before) : (pure value : Pass σ α).Ends context before finished :=
  reached

/-- Parts end one after another. -/
theorem Ends.bind {part : Pass σ α} {next : α → Pass σ β} {between : α → PassState σ → Prop}
    {finished : β → PassState σ → Prop} (first : part.Ends context before between)
    (second : ∀ value state, between value state → (next value).Ends context state finished) :
    (part >>= next).Ends context before finished := by
  unfold Ends at *
  rw [run_bind]
  cases outcome : part.run context before with
  | done value state =>
      rw [outcome] at first
      exact second value state first
  | halted reason state =>
      rw [outcome] at first
      exact first

/-- A first part that does not depend on labels. -/
theorem ends_bind_of_done {part : Pass σ α} {next : α → Pass σ β} {value : α}
    {finished : β → PassState σ → Prop} (ran : part.run context before = .done value middle)
    (second : (next value).Ends context middle finished) :
    (part >>= next).Ends context before finished := by
  unfold Ends
  rw [run_bind_of_done ran]
  exact second

/-- A part that succeeds is followed by one that ends. -/
theorem Succeeds.ends_bind {part : Pass σ α} {next : α → Pass σ β}
    {finished : β → PassState σ → Prop} (first : part.Succeeds context before middle)
    (second : ∀ value, (next value).Ends context middle finished) :
    (part >>= next).Ends context before finished := by
  obtain ⟨value, ran⟩ := first
  exact ends_bind_of_done ran (second value)

end Ends

variable {σ : Type} {context : PassContext} {environment : Environment}
  {before middle after : PassState σ}

/-! ## Statements without labels -/

/-- An expression in front of a mark that closes what it stands in. -/
theorem expression_before_mark {tree : Expression} {sign : Punctuation}
    (offered : Offers context environment before tree.yield (tree.demands environment) middle)
    (closes : sign ∈ [.rightParen, .rightBracket, .semicolon, .comma])
    (mark : middle.nextKind? = some (.punctuation sign)) :
    expression.Succeeds context before middle := by
  refine wholeExpression_of_offers tree offered ?_
  rw [mark]
  exact endsExpression_of_mark sign closes

/-- An assignment to a variable that is offered succeeds. -/
theorem let_of_offers {target : String} {value : Expression}
    (offered : Offers context environment before
      (.name target :: .mark .equals :: (value.yield ++ [.mark .semicolon]))
      (.visible target :: value.demands environment) after) :
    letStatement.Succeeds context before after := by
  obtain ⟨visible, met⟩ := List.forall_mem_cons.1 offered.met
  obtain ⟨named, name, assigned⟩ := offered.head
  obtain ⟨start, equals, phrase⟩ := assigned.head
  obtain ⟨behind, one, semicolon⟩ := phrase.last
  obtain ⟨token, shown, read⟩ := expect_of_reads name
  obtain ⟨place, resolved⟩ := exists_resolve shown assigned.names visible
  have found := expression_before_mark ⟨one.reads, one.names, met, one.room⟩ (by simp)
    semicolon.nextKind?
  have absent : named.nextKind? ≠ some (.punctuation .leftBracket) := by
    rw [equals.nextKind?]
    simp [Terminal.kind]
  refine succeeds_bind_of_done read (succeeds_bind_of_done resolved ?_)
  refine succeeds_bind_of_done (take_of_ne absent) ?_
  have assignment : (variableAssignment place).Succeeds context named behind :=
    succeeds_bind_of_done (expectMark_of_reads equals) (found.bind fun _ => succeeds_pure _)
  exact assignment.bind fun _ =>
    succeeds_bind_of_done (expectMark_of_reads semicolon) (succeeds_pure _)

/-- An assignment to an element that is offered succeeds. -/
theorem letElement_of_offers {array : String} {index value : Expression}
    (offered : Offers context environment before
      (.name array :: .mark .leftBracket :: (index.yield ++ .mark .rightBracket ::
        .mark .equals :: (value.yield ++ [.mark .semicolon])))
      (.visible array :: (index.demands environment ++ value.demands environment)) after) :
    letStatement.Succeeds context before after := by
  obtain ⟨visible, met⟩ := List.forall_mem_cons.1 offered.met
  obtain ⟨named, name, bracketed⟩ := offered.head
  obtain ⟨start, opening, phrase⟩ := bracketed.head
  obtain ⟨indexed, one, closed⟩ := Offers.split ⟨phrase.reads, phrase.names, met, phrase.room⟩
  obtain ⟨equated, closing, assigned⟩ := closed.head
  obtain ⟨middle, equals, rest⟩ := assigned.head
  obtain ⟨behind, two, semicolon⟩ := rest.last
  obtain ⟨token, shown, read⟩ := expect_of_reads name
  obtain ⟨place, resolved⟩ := exists_resolve shown bracketed.names visible
  have first := expression_before_mark one (by simp) closing.nextKind?
  have second := expression_before_mark two (by simp) semicolon.nextKind?
  have taken : (take (.punctuation .leftBracket)).run context named = .done true start :=
    take_of_reads opening
  refine succeeds_bind_of_done read (succeeds_bind_of_done resolved ?_)
  refine succeeds_bind_of_done taken ?_
  have assignment : (elementAssignment place).Succeeds context start behind :=
    first.bind fun _ => succeeds_bind_of_done (expectMark_of_reads closing)
      (succeeds_bind_of_done (expectMark_of_reads equals) (second.bind fun _ => succeeds_pure _))
  exact assignment.bind fun _ =>
    succeeds_bind_of_done (expectMark_of_reads semicolon) (succeeds_pure _)

/-- A call that is offered as a statement succeeds. -/
theorem do_of_offers {call : Call}
    (offered : Offers context environment before (call.yield ++ [.mark .semicolon])
      (call.demands environment) after) :
    doStatement.Succeeds context before after := by
  obtain ⟨behind, one, semicolon⟩ := offered.last
  exact (wholeCall_of_offers call one).bind fun _ =>
    succeeds_bind_of_done (expectMark_of_reads semicolon) (succeeds_pure _)

/-- A return without a value that is offered succeeds. -/
theorem return_of_reads (move : before.Reads context.source [.mark .semicolon] after) :
    returnStatement.Succeeds context before after := by
  have taken : (take (.punctuation .semicolon)).run context before = .done true after :=
    take_of_reads move
  exact succeeds_bind_of_done taken (succeeds_pure _)

/-- A return with a value that is offered succeeds. -/
theorem return_of_offers {value : Expression}
    (offered : Offers context environment before (value.yield ++ [.mark .semicolon])
      (value.demands environment) after) :
    returnStatement.Succeeds context before after := by
  obtain ⟨behind, one, semicolon⟩ := offered.last
  have found := expression_before_mark one (by simp) semicolon.nextKind?
  have absent : before.nextKind? ≠ some (.punctuation .semicolon) := by
    obtain ⟨first, others, shape, opens⟩ := value.opens
    rw [one.reads.nextKind?_eq, shape]
    exact fun impossible => opens.2 (Option.some.inj impossible)
  apply succeeds_bind_of_done (take_of_ne absent)
  apply found.bind
  intro code
  exact succeeds_bind_of_done (expectMark_of_reads semicolon) (succeeds_pure _)

/-! ## Statements with labels -/

/-- What a part ends in when all but the labels is known. -/
def UpToLabels (ending : PassState σ) {α : Type} (_ : α) (after : PassState σ) : Prop :=
  ∃ labels, after = ending.withLabels labels

/-- What succeeds ends in its state up to labels. -/
theorem Succeeds.upToLabels {part : Pass σ Code} {labels : σ}
    (ran : part.Succeeds context before (after.withLabels labels)) :
    part.Ends context before (UpToLabels after) := by
  obtain ⟨value, ran⟩ := ran
  exact ends_of_done ran ⟨labels, rfl⟩

/-- A condition in its parentheses. -/
theorem condition_of_offers {test : Expression} {inside behind : PassState σ}
    (opening : before.Reads context.source [.mark .leftParen] inside)
    (offered : Offers context environment inside test.yield (test.demands environment) behind)
    (closing : behind.Reads context.source [.mark .rightParen] after) :
    condition.Succeeds context before after := by
  have found := expression_before_mark offered (by simp) closing.nextKind?
  apply succeeds_bind_of_done (expectMark_of_reads opening)
  apply found.bind
  intro code
  exact succeeds_bind_of_done (expectMark_of_reads closing) (succeeds_pure _)

/-- Statements in their braces, given that the statements are recognised. -/
theorem block_of_offers {statements : Pass σ Code} {inside behind : PassState σ}
    (opening : before.Reads context.source [.mark .leftBrace] inside)
    (inner : ∀ labels, statements.Ends context (inside.withLabels labels) (UpToLabels behind))
    (closing : behind.Reads context.source [.mark .rightBrace] after) (labels : σ) :
    (blockOf statements).Ends context (before.withLabels labels) (UpToLabels after) := by
  refine ends_bind_of_done (expectMark_of_reads (opening.withLabels labels)) ?_
  refine (inner labels).bind ?_
  rintro code _ ⟨left, rfl⟩
  exact ends_bind_of_done (expectMark_of_reads (closing.withLabels left))
    (ends_pure ⟨left, rfl⟩)

variable [LabelSource σ]

/-- Drawing a label ends in the same state up to labels. -/
theorem ends_draw : draw.Ends context before (UpToLabels before) := by
  unfold draw
  refine ends_bind_of_done (run_state context before) ?_
  cases LabelSource.draw? before.labels with
  | none => exact rfl
  | some drawn =>
      exact ends_bind_of_done (run_setState context before _) (ends_pure ⟨drawn.2, rfl⟩)

/-- A loop is recognised whatever labels its body starts from. -/
theorem while_of_blocks {block : Pass σ Code} {tested : PassState σ}
    (test : ∀ labels, condition.Succeeds context (before.withLabels labels)
      (tested.withLabels labels))
    (body : ∀ labels, block.Ends context (tested.withLabels labels) (UpToLabels after)) :
    (whileStatement block).Ends context before (UpToLabels after) := by
  refine ends_draw.bind ?_
  rintro top _ ⟨_, rfl⟩
  refine ends_draw.bind ?_
  rintro bottom _ ⟨labels, rfl⟩
  refine (test labels).ends_bind fun _ => (body labels).bind ?_
  rintro code _ ⟨left, rfl⟩
  exact ends_pure ⟨left, rfl⟩

/-- A choice is recognised whatever labels its body starts from. -/
theorem if_of_blocks {block : Pass σ Code} {tested chosen : PassState σ}
    (test : ∀ labels, condition.Succeeds context (before.withLabels labels)
      (tested.withLabels labels))
    (body : ∀ labels, block.Ends context (tested.withLabels labels) (UpToLabels chosen))
    (alternative : (chosen.nextKind? ≠ some (.keyword .else) ∧ chosen = after) ∨
      ∃ opened, chosen.Reads context.source [.keyword .else] opened ∧
        ∀ labels, block.Ends context (opened.withLabels labels) (UpToLabels after)) :
    (ifStatement block).Ends context before (UpToLabels after) := by
  refine ends_draw.bind ?_
  rintro otherwise _ ⟨_, rfl⟩
  refine ends_draw.bind ?_
  rintro done _ ⟨labels, rfl⟩
  refine (test labels).ends_bind fun _ => (body labels).bind ?_
  rintro code _ ⟨left, rfl⟩
  rcases alternative with ⟨absent, rfl⟩ | ⟨opened, word, other⟩
  · have refused : (take (.keyword .else)).run context (chosen.withLabels left) =
        .done false (chosen.withLabels left) := take_of_ne absent
    exact ends_bind_of_done refused (ends_pure ⟨left, rfl⟩)
  · have taken : (take (.keyword .else)).run context (chosen.withLabels left) =
        .done true (opened.withLabels left) := take_of_reads (word.withLabels left)
    refine ends_bind_of_done taken ((other left).bind ?_)
    rintro code _ ⟨rest, rfl⟩
    exact ends_pure ⟨rest, rfl⟩

/-! ## All forms of statements -/

/-- What a round of statements does after its keyword. -/
def statementFrom (block : Pass σ Code) (code : Code) (kind : Token.Kind) :
    Pass σ (Code ⊕ Code) :=
  match kind with
  | .keyword .let => do pure (.inl (code ++ (← letStatement)))
  | .keyword .if => do pure (.inl (code ++ (← ifStatement block)))
  | .keyword .while => do pure (.inl (code ++ (← whileStatement block)))
  | .keyword .do => do pure (.inl (code ++ (← doStatement)))
  | .keyword .return => do pure (.inl (code ++ (← returnStatement)))
  | _ => do
      unread
      pure (.inr code)

/-- A round reads the next kind and goes on with the statement that begins with it. -/
theorem statementStep_eq (block : Pass σ Code) (code : Code) : statementStep block code = (do
    let token ← advance
    statementFrom block code token.kind) := rfl

/-- A round goes on after a statement. -/
def GoesOn (ending : PassState σ) (outcome : Code ⊕ Code) (after : PassState σ) : Prop :=
  (∃ code, outcome = .inl code) ∧ UpToLabels ending outcome after

/-- A round reads a statement if the recogniser of its keyword ends behind it. -/
theorem ends_statement {block statement : Pass σ Code} {sofar : Code} {word : Keyword}
    (move : before.Reads context.source [.keyword word] middle)
    (isWord : statementFrom block sofar (.keyword word) =
      do pure (.inl (sofar ++ (← statement))))
    (ran : statement.Ends context middle (UpToLabels after)) :
    (statementStep block sofar).Ends context before (GoesOn after) := by
  obtain ⟨token, shown, read⟩ := advance_of_reads move
  rw [statementStep_eq]
  refine ends_bind_of_done read ?_
  rw [Token.kind_of_terminal? shown]
  show (statementFrom block sofar (.keyword word)).Ends context middle (GoesOn after)
  rw [isWord]
  refine ran.bind ?_
  rintro code _ ⟨labels, rfl⟩
  exact ends_pure ⟨⟨_, rfl⟩, labels, rfl⟩

/-- Statements end in front of a closing brace, which is unread. -/
theorem ends_statements {block : Pass σ Code} {sofar : Code}
    (closing : before.Reads context.source [.mark .rightBrace] after) :
    (statementStep block sofar).run context before = .done (.inr sofar) before := by
  obtain ⟨token, shown, read⟩ := advance_of_reads closing
  rw [statementStep_eq, run_bind_of_done read, Token.kind_of_terminal? shown]
  show (unread >>= fun _ => pure (.inr sofar) : Pass σ (Code ⊕ Code)).run context after = _
  rw [run_bind_of_done (unread_of_reads closing)]
  rfl

/-- Statements within a bound on blocks are rounds of statements within the next lower one. -/
theorem within_of_rounds {depth : Nat} (deep : before.left < depth)
    (rounds : ∀ below, before.left ≤ below → ∀ labels,
      (iterateFor (statementStep (blockOf (statementsWithin below))) context.bound .empty).Ends
        context (before.withLabels labels) (UpToLabels after)) (labels : σ) :
    (statementsWithin depth).Ends context (before.withLabels labels) (UpToLabels after) := by
  obtain ⟨below, rfl⟩ := Nat.exists_eq_add_one_of_ne_zero (Nat.ne_zero_of_lt deep)
  exact rounds below (Nat.le_of_lt_succ deep) labels

mutual

/-- A statement that is offered is one round, with depth to spare. -/
theorem statement_of_offers (tree : Statement) {depth : Nat} {sofar : Code}
    {before after : PassState σ}
    (offered : Offers context environment before tree.yield (tree.demands environment) after)
    (ends : EndsChoice after.nextKind?) (deep : before.left ≤ depth) (labels : σ) :
    (statementStep (blockOf (statementsWithin depth)) sofar).Ends context
      (before.withLabels labels) (GoesOn after) := by
  cases tree with
  | assign target value =>
      simp only [Statement.yield, Statement.demands, List.cons_append, List.nil_append] at offered
      obtain ⟨start, word, phrase⟩ := offered.head
      exact ends_statement (word.withLabels labels) rfl
        (let_of_offers (phrase.withLabels labels)).upToLabels
  | assignElement array index value =>
      simp only [Statement.yield, Statement.demands, List.cons_append, List.nil_append,
        List.append_assoc] at offered
      obtain ⟨start, word, phrase⟩ := offered.head
      exact ends_statement (word.withLabels labels) rfl
        (letElement_of_offers (phrase.withLabels labels)).upToLabels
  | choice test body alternative =>
      simp only [Statement.yield, Statement.demands, List.cons_append, List.nil_append,
        List.append_assoc] at offered
      obtain ⟨start, word, conditional⟩ := offered.head
      obtain ⟨inside, opening, tested⟩ := conditional.head
      obtain ⟨behind, one, closed⟩ := tested.split
      obtain ⟨blocked, closing, braced⟩ := closed.head
      obtain ⟨entered, brace, phrase⟩ := braced.head
      obtain ⟨left, two, unbraced⟩ := phrase.split
      obtain ⟨chosen, unbrace, last⟩ := unbraced.head
      have read := ((((word.trans opening).trans one.reads).trans closing).trans brace).left
      have readOn := (two.reads.trans unbrace).left
      simp only [List.length_append, List.length_cons, List.length_nil] at read readOn
      have inner : ∀ labels, (statementsWithin depth).Ends context (entered.withLabels labels)
          (UpToLabels left) := within_of_rounds (by omega) fun _ deep =>
        statements_of_offers body two unbrace deep two.room
      have testing := fun labels => condition_of_offers (opening.withLabels labels)
        (one.withLabels labels) (closing.withLabels labels)
      have choosing := block_of_offers brace inner unbrace
      refine ends_statement (word.withLabels labels) rfl (if_of_blocks ?_ choosing ?_)
      · exact testing
      · exact alternative_of_offers alternative last ends (by omega)
  | loop test body =>
      simp only [Statement.yield, Statement.demands, List.cons_append, List.nil_append,
        List.append_assoc] at offered
      obtain ⟨start, word, conditional⟩ := offered.head
      obtain ⟨inside, opening, tested⟩ := conditional.head
      obtain ⟨behind, one, closed⟩ := tested.split
      obtain ⟨blocked, closing, braced⟩ := closed.head
      obtain ⟨entered, brace, phrase⟩ := braced.head
      obtain ⟨left, two, unbrace⟩ := phrase.last
      have read := ((((word.trans opening).trans one.reads).trans closing).trans brace).left
      simp only [List.length_append, List.length_cons, List.length_nil] at read
      have inner : ∀ labels, (statementsWithin depth).Ends context (entered.withLabels labels)
          (UpToLabels left) := within_of_rounds (by omega) fun _ deep =>
        statements_of_offers body two unbrace deep two.room
      have testing := fun labels => condition_of_offers (opening.withLabels labels)
        (one.withLabels labels) (closing.withLabels labels)
      have repeating := block_of_offers brace inner unbrace
      refine ends_statement (word.withLabels labels) rfl (while_of_blocks ?_ repeating)
      exact testing
  | perform call =>
      simp only [Statement.yield, Statement.demands, List.cons_append, List.nil_append] at offered
      obtain ⟨start, word, phrase⟩ := offered.head
      exact ends_statement (word.withLabels labels) rfl
        (do_of_offers (phrase.withLabels labels)).upToLabels
  | «return» value =>
      cases value with
      | none =>
          obtain ⟨start, word, phrase⟩ := offered.head
          exact ends_statement (word.withLabels labels) rfl
            (return_of_reads (phrase.withLabels labels).reads).upToLabels
      | some value =>
          simp only [Statement.yield, Statement.demands, List.cons_append,
            List.nil_append] at offered
          obtain ⟨start, word, phrase⟩ := offered.head
          exact ends_statement (word.withLabels labels) rfl
            (return_of_offers (phrase.withLabels labels)).upToLabels

/-- An alternative that is offered is absent, or a block behind its keyword. -/
theorem alternative_of_offers (tree : Alternative) {depth : Nat} {before after : PassState σ}
    (offered : Offers context environment before tree.yield (tree.demands environment) after)
    (ends : EndsChoice after.nextKind?) (deep : before.left < depth) :
    (before.nextKind? ≠ some (.keyword .else) ∧ before = after) ∨
      ∃ opened, before.Reads context.source [.keyword .else] opened ∧
        ∀ labels, (blockOf (statementsWithin depth)).Ends context (opened.withLabels labels)
          (UpToLabels after) := by
  cases tree with
  | absent =>
      have stopped := offered.reads.eq_of_nil
      subst stopped
      exact .inl ⟨ends, rfl⟩
  | present body =>
      simp only [Alternative.yield, Alternative.demands, List.cons_append,
        List.nil_append] at offered
      obtain ⟨opened, word, braced⟩ := offered.head
      obtain ⟨entered, brace, phrase⟩ := braced.head
      obtain ⟨left, one, unbrace⟩ := phrase.last
      have read := (word.trans brace).left
      simp only [List.length_append, List.length_cons, List.length_nil] at read
      have inner : ∀ labels, (statementsWithin depth).Ends context (entered.withLabels labels)
          (UpToLabels left) := within_of_rounds (by omega) fun _ deep =>
        statements_of_offers body one unbrace deep one.room
      exact .inr ⟨opened, word, block_of_offers brace inner unbrace⟩

/-- Statements that are offered are rounds up to the closing brace, with rounds to spare. -/
theorem statements_of_offers (tree : Statements) {depth rounds : Nat} {sofar : Code}
    {before after closed : PassState σ}
    (offered : Offers context environment before tree.yield (tree.demands environment) after)
    (closing : after.Reads context.source [.mark .rightBrace] closed)
    (deep : before.left ≤ depth) (enough : before.left < rounds) (labels : σ) :
    (iterateFor (statementStep (blockOf (statementsWithin depth))) rounds sofar).Ends context
      (before.withLabels labels) (UpToLabels after) := by
  obtain ⟨rounds, rfl⟩ := Nat.exists_eq_add_one_of_ne_zero (Nat.ne_zero_of_lt enough)
  cases tree with
  | nil =>
      have stopped := offered.reads.eq_of_nil
      subst stopped
      exact ends_bind_of_done (ends_statements (closing.withLabels labels))
        (ends_pure ⟨labels, rfl⟩)
  | cons first others =>
      rw [Statements.yield, Statements.demands] at offered
      obtain ⟨middle, one, two⟩ := offered.split
      have endsFirst := others.endsChoice
      have brace : after.nextKind? = some (.punctuation .rightBrace) := closing.nextKind?
      rw [← brace, ← two.reads.nextKind?_eq] at endsFirst
      have shorter := one.left
      have progress : 0 < first.yield.length := by
        obtain ⟨word, rest, shape, _⟩ := first.opens
        rw [shape]
        exact Nat.succ_pos _
      refine (statement_of_offers first one endsFirst deep labels).bind ?_
      rintro _ _ ⟨⟨code, rfl⟩, left, rfl⟩
      exact statements_of_offers others two closing (by omega) (by omega) left

end

/-- Statements in front of the brace that closes them. -/
theorem wholeStatements_of_offers (tree : Statements) {before after closed : PassState σ}
    (offered : Offers context environment before tree.yield (tree.demands environment) after)
    (closing : after.Reads context.source [.mark .rightBrace] closed) (labels : σ) :
    statements.Ends context (before.withLabels labels) (UpToLabels after) :=
  within_of_rounds offered.room
    (fun _ deep => statements_of_offers tree offered closing deep offered.room) labels

end Pass

end JackCompiler
