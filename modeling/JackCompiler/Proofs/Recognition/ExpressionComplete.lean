import JackCompiler.Proofs.Grammar.Follow
import JackCompiler.Proofs.Recognition.ExpressionSound

/-!
# Expressions with trees are recognised

The other direction: where the yield of a tree is next, its demands are met, and what is behind does
not continue it, the recogniser is done and has read exactly the yield. The code needs no
tracking here, since what is done is known to have the code of a tree. Bounds on rounds and on
nesting are never reached, because every round and every level reads a token.
-/

namespace JackCompiler

open Grammar

namespace PassState

variable {σ : Type} {source : String} {before after : PassState σ}

/-- What comes next is the start of what is read, or what comes next at its end. -/
theorem Reads.nextKind?_eq {terminals : List Terminal}
    (move : before.Reads source terminals after) :
    before.nextKind? = (Grammar.nextKind? terminals).or after.nextKind? := by
  cases terminals with
  | nil => rw [move.eq_of_nil]; rfl
  | cons first others => rw [move.nextKind?]; rfl

end PassState

/-- The yield of a phrase is next and its demands are met. The bound of the pass is beyond the
number of tokens left. -/
structure Offers {σ : Type} (context : PassContext) (environment : Environment)
    (before : PassState σ) (yield : List Terminal) (demands : List Demand)
    (after : PassState σ) : Prop where
  reads : before.Reads context.source yield after
  names : before.environment = environment
  met : ∀ demand ∈ demands, demand.Met environment
  room : before.left < context.bound

namespace Offers

variable {σ : Type} {context : PassContext} {environment : Environment}
  {before after : PassState σ} {first second : List Terminal} {demands more : List Demand}

/-- What is offered is left over besides what is behind it. -/
theorem left (offered : Offers context environment before first demands after) :
    before.left = first.length + after.left :=
  offered.reads.left

/-- A phrase in two parts. -/
theorem split
    (whole : Offers context environment before (first ++ second) (demands ++ more) after) :
    ∃ middle, Offers context environment before first demands middle ∧
      Offers context environment middle second more after := by
  obtain ⟨middle, one, two⟩ := whole.reads.split
  have met := List.forall_mem_append.1 whole.met
  have shorter := one.left
  have room := whole.room
  refine ⟨middle, ⟨one, whole.names, met.1, room⟩, two, ?_, met.2, by omega⟩
  exact one.environment.trans whole.names

/-- A phrase that starts with a terminal. -/
theorem head {terminal : Terminal}
    (whole : Offers context environment before (terminal :: second) demands after) :
    ∃ middle, before.Reads context.source [terminal] middle ∧
      Offers context environment middle second demands after := by
  obtain ⟨middle, one, two⟩ := whole.reads.head
  have shorter := one.left
  have room := whole.room
  exact ⟨middle, one, two, one.environment.trans whole.names, whole.met, by omega⟩

/-- A phrase that ends with a terminal. -/
theorem last {terminal : Terminal}
    (whole : Offers context environment before (first ++ [terminal]) demands after) :
    ∃ middle, Offers context environment before first demands middle ∧
      middle.Reads context.source [terminal] after := by
  obtain ⟨middle, one, two⟩ := whole.reads.split
  exact ⟨middle, ⟨one, whole.names, whole.met, whole.room⟩, two⟩

end Offers

namespace Pass

variable {σ α β : Type} {context : PassContext} {environment : Environment}
  {before middle after : PassState σ}

/-- A part of the pass is done and ends in a given state. -/
def Succeeds (context : PassContext) (before after : PassState σ) (part : Pass σ α) : Prop :=
  ∃ value, part.run context before = .done value after

/-- A value alone succeeds without reading. -/
theorem succeeds_pure (value : α) : (pure value : Pass σ α).Succeeds context before before :=
  ⟨value, rfl⟩

/-- Parts succeed one after another. -/
theorem Succeeds.bind {part : Pass σ α} {next : α → Pass σ β}
    (first : part.Succeeds context before middle)
    (second : ∀ value, (next value).Succeeds context middle after) :
    (part >>= next).Succeeds context before after := by
  obtain ⟨value, ran⟩ := first
  obtain ⟨result, ranNext⟩ := second value
  exact ⟨result, run_bind_eq_done_iff.2 ⟨value, middle, ran, ranNext⟩⟩

/-- A first part that is known to be done with a given value. -/
theorem succeeds_bind_of_done {part : Pass σ α} {next : α → Pass σ β} {value : α}
    (first : part.run context before = .done value middle)
    (second : (next value).Succeeds context middle after) :
    (part >>= next).Succeeds context before after := by
  obtain ⟨result, ranNext⟩ := second
  exact ⟨result, run_bind_eq_done_iff.2 ⟨value, middle, first, ranNext⟩⟩

/-- Counts that do not leave their word have a sum. -/
theorem exists_total {left right : UInt16} (small : left.toNat + right.toNat ≤ maxCount) :
    ∃ total : UInt16, total.toNat = left.toNat + right.toNat := by
  refine ⟨UInt16.ofNat (left.toNat + right.toNat), UInt16.toNat_ofNat_of_lt' ?_⟩
  simp only [maxCount, UInt16.size] at *
  omega

/-- A sum that fits in a word is found. -/
theorem exists_sum (items : Countable) (left right : UInt16) (state : PassState σ)
    (small : left.toNat + right.toNat ≤ maxCount) :
    ∃ total, (sum items left right).run context state = .done total state ∧
      total.toNat = left.toNat + right.toNat := by
  obtain ⟨total, added⟩ := exists_total small
  exact ⟨total, sum_eq_done_iff.2 ⟨added, rfl⟩, added⟩

/-! ## Names and strings -/

/-- What a term does with its first token. -/
def termFrom (depth : Nat) (token : Token) (kind : Token.Kind) : Pass σ Code :=
  match KeywordConstant.ofKind? kind with
  | some constant => pure (Code.constant constant)
  | none =>
      match UnaryOperator.ofKind? kind with
      | some operator => do
          let operand ← term depth
          pure (operand.unary operator)
      | none =>
          match kind with
          | .integer value => pure (Code.ofList [.push .constant value])
          | .string => stringTerm token
          | .punctuation .leftParen => do
              let code ← expressionOf (term depth)
              expectMark .rightParen
              pure code
          | .identifier => nameTerm (expressionOf (term depth)) token
          | actual => reject token.span (.grammatical (.unexpectedInExpression actual))

/-- A term is read by its first token, and goes on as the kind of that token says. -/
theorem term_eq (depth : Nat) : (term (depth + 1) : Pass σ Code) = (do
    let token ← advance
    termFrom depth token token.kind) := rfl

/-- A term whose first terminal is read goes on by the kind of that terminal. -/
theorem succeeds_term {depth : Nat} {terminal : Terminal}
    (move : before.Reads context.source [terminal] middle)
    (goesOn : ∀ token, token.terminal? context.source = some terminal →
      (termFrom depth token terminal.kind).Succeeds context middle after) :
    (term (depth + 1)).Succeeds context before after := by
  obtain ⟨token, shown, read⟩ := advance_of_reads move
  rw [term_eq]
  refine succeeds_bind_of_done read ?_
  rw [Token.kind_of_terminal? shown]
  exact goesOn token shown

/-- Behind a name the next mark tells an element, a call and a variable apart. -/
theorem run_nameTerm (expression : Pass σ Code) (token : Token) :
    (nameTerm expression token).run context before =
      (match before.nextKind? with
      | some (.punctuation .leftBracket) => do
          let array ← resolve token
          arrayElement expression array
      | some (.punctuation .leftParen) | some (.punctuation .dot) => do
          unread
          subroutineCall expression
      | _ => do
          let place ← resolve token
          pure (Code.ofList [.push place.segment place.index]) : Pass σ Code).run context before :=
  rfl

/-- A visible name is resolved. -/
theorem exists_resolve {token : Token} {text : String}
    (shown : token.terminal? context.source = some (.name text))
    (same : before.environment = environment) (visible : (Demand.visible text).Met environment) :
    ∃ place, (resolve token).run context before = .done place before := by
  obtain ⟨place, found⟩ := Option.isSome_iff_exists.1 visible
  exact ⟨place, (resolve_eq_done_iff shown).2 ⟨by rw [same, found], rfl⟩⟩

/-- A name that is visible and not followed by a bracket, a dot or a parenthesis is a term. -/
theorem succeeds_name {expression : Pass σ Code} {token : Token} {text : String}
    (shown : token.terminal? context.source = some (.name text))
    (same : before.environment = environment) (visible : (Demand.visible text).Met environment)
    (ends : EndsTerm before.nextKind?) :
    (nameTerm expression token).Succeeds context before before := by
  obtain ⟨place, resolved⟩ := exists_resolve shown same visible
  unfold Succeeds
  rw [run_nameTerm]
  split
  · next bracket =>
      rw [bracket] at ends
      cases ends
  · next parenthesis =>
      rw [parenthesis] at ends
      cases ends
  · next dot =>
      rw [dot] at ends
      cases ends
  · exact succeeds_bind_of_done resolved (succeeds_pure _)

/-- A name in front of an index is an array. -/
theorem succeeds_element {expression : Pass σ Code} {token : Token} {text : String}
    {inside behind : PassState σ}
    (shown : token.terminal? context.source = some (.name text))
    (same : before.environment = environment) (visible : (Demand.visible text).Met environment)
    (opening : before.Reads context.source [.mark .leftBracket] inside)
    (index : expression.Succeeds context inside behind)
    (closing : behind.Reads context.source [.mark .rightBracket] after) :
    (nameTerm expression token).Succeeds context before after := by
  obtain ⟨place, resolved⟩ := exists_resolve shown same visible
  obtain ⟨bracket, _, read⟩ := advance_of_reads opening
  unfold Succeeds
  rw [run_nameTerm, opening.nextKind?]
  refine succeeds_bind_of_done resolved (succeeds_bind_of_done read (index.bind fun code => ?_))
  exact succeeds_bind_of_done (expectMark_of_reads closing) (succeeds_pure _)

/-- A name that is called is unread and then read again as the start of a call. -/
theorem succeeds_call {expression : Pass σ Code} {token : Token} {text : String}
    (move : before.Reads context.source [.name text] middle)
    (goesOn : middle.nextKind? = some (.punctuation .leftParen) ∨
      middle.nextKind? = some (.punctuation .dot))
    (call : (subroutineCall expression).Succeeds context before after) :
    (nameTerm expression token).Succeeds context middle after := by
  have back := unread_of_reads move
  unfold Succeeds
  rw [run_nameTerm]
  rcases goesOn with parenthesis | dot
  · rw [parenthesis]
    exact succeeds_bind_of_done back call
  · rw [dot]
    exact succeeds_bind_of_done back call

/-- The arguments of a call, in the parentheses that were offered with them. -/
theorem exists_arguments {expression : Pass σ Code} {tree : Arguments}
    {inside behind : PassState σ}
    (opening : before.Reads context.source [.mark .leftParen] inside)
    (list : ∃ code total, (expressionList expression).run context inside =
      .done (code, total) behind ∧ total.toNat = tree.count)
    (closing : behind.Reads context.source [.mark .rightParen] after) :
    ∃ code total, (arguments expression).run context before = .done (code, total) after ∧
      total.toNat = tree.count := by
  obtain ⟨code, total, ran, counted⟩ := list
  refine ⟨code, total, ?_, counted⟩
  unfold arguments
  rw [run_bind_of_done (expectMark_of_reads opening), run_bind_of_done ran,
    run_bind_of_done (expectMark_of_reads closing)]
  rfl

/-- A call of a method of the current object passes the object and the arguments. -/
theorem succeeds_own {expression : Pass σ Code} {text : String} {tree : Arguments}
    (move : before.Reads context.source [.name text] middle)
    (parenthesis : middle.nextKind? = some (.punctuation .leftParen))
    (list : ∃ code total, (arguments expression).run context middle = .done (code, total) after ∧
      total.toNat = tree.count)
    (small : tree.count + 1 ≤ maxCount) :
    (subroutineCall expression).Succeeds context before after := by
  obtain ⟨code, total, ran, counted⟩ := list
  obtain ⟨words, summed, _⟩ := exists_sum .arguments total 1 after (by rw [counted]; exact small)
  refine succeeds_bind_of_done (name_of_reads move) ?_
  refine succeeds_bind_of_done (take_of_ne (by rw [parenthesis]; simp)) ?_
  exact succeeds_bind_of_done ran (succeeds_bind_of_done summed ⟨_, rfl⟩)

/-- A call by two names passes the object if the first is a variable. -/
theorem succeeds_qualified {expression : Pass σ Code} {owner subroutine : String}
    {tree : Arguments} {named dotted : PassState σ} (same : before.environment = environment)
    (first : before.Reads context.source [.name owner] named)
    (dot : named.Reads context.source [.mark .dot] dotted)
    (second : dotted.Reads context.source [.name subroutine] middle)
    (list : ∃ code total, (arguments expression).run context middle = .done (code, total) after ∧
      total.toNat = tree.count)
    (small : tree.count + (if (environment.place? owner).isSome then 1 else 0) ≤ maxCount) :
    (subroutineCall expression).Succeeds context before after := by
  obtain ⟨code, total, ran, counted⟩ := list
  have taken : (take (.punctuation .dot)).run context named = .done true dotted :=
    take_of_reads dot
  refine succeeds_bind_of_done (name_of_reads first) (succeeds_bind_of_done taken ?_)
  refine succeeds_bind_of_done (name_of_reads second) ?_
  refine succeeds_bind_of_done (run_lookup? owner) ?_
  rw [((first.trans dot).trans second).environment, same]
  cases place : environment.place? owner with
  | none => exact succeeds_bind_of_done ran ⟨_, rfl⟩
  | some receiver =>
      rw [place] at small
      obtain ⟨words, summed, _⟩ :=
        exists_sum .arguments total 1 after (by rw [counted]; exact small)
      exact succeeds_bind_of_done ran (succeeds_bind_of_done summed ⟨_, rfl⟩)

/-- A list of arguments in front of a closing parenthesis is empty or has items. -/
theorem list_of_items {expression : Pass σ Code} {tree : Arguments}
    (offered : Offers context environment before tree.yield (tree.demands environment) after)
    (closed : after.nextKind? = some (.punctuation .rightParen))
    (items : tree ≠ .nil → ∃ result total,
      (iterateFor (separatedStep (argumentItem expression)) context.bound (.empty, 0)).run
        context before = .done (result, total) after ∧
          total.toNat = (0 : UInt16).toNat + tree.count) :
    ∃ code total, (expressionList expression).run context before = .done (code, total) after ∧
      total.toNat = tree.count := by
  rw [expressionList_eq, run_bind_of_done (run_nextIs _)]
  cases tree with
  | nil =>
      have stopped := offered.reads.eq_of_nil
      subst stopped
      rw [closed]
      exact ⟨_, _, rfl, rfl⟩
  | cons first others =>
      obtain ⟨start, rest, shape, opens⟩ := first.opens
      have apart : before.nextKind? ≠ some (.punctuation .rightParen) := by
        rw [offered.reads.nextKind?_eq, Arguments.yield, shape]
        exact fun impossible => opens.1 (Option.some.inj impossible)
      rw [if_neg (by simpa using apart), run_separated]
      obtain ⟨code, total, ran, counted⟩ := items (by simp)
      exact ⟨code, total, ran, by simpa using counted⟩

/-! ## All forms of expressions

Mutual induction on the tree. `depth` bounds the nesting below a term, `rounds` those of a loop; the
tokens left are never more than either. -/

mutual

/-- An expression that is offered succeeds, with depth to spare. -/
theorem expression_of_offers (tree : Expression) {depth : Nat} {before after : PassState σ}
    (offered : Offers context environment before tree.yield (tree.demands environment) after)
    (ends : EndsExpression after.nextKind?) (deep : before.left ≤ depth) :
    (expressionOf (term depth)).Succeeds context before after := by
  cases tree with
  | mk first others =>
      rw [Expression.yield, Expression.demands] at offered
      obtain ⟨middle, one, two⟩ := offered.split
      have endsFirst := others.endsTerm ends
      rw [← two.reads.nextKind?_eq] at endsFirst
      have shorter := one.left
      rw [expressionOf_eq]
      exact (term_of_offers first one endsFirst deep).bind fun code =>
        operands_of_offers others two ends (by omega) two.room

/-- Operands that are offered succeed, with depth and rounds to spare. -/
theorem operands_of_offers (tree : Operands) {depth rounds : Nat} {sofar : Code}
    {before after : PassState σ}
    (offered : Offers context environment before tree.yield (tree.demands environment) after)
    (ends : EndsExpression after.nextKind?) (deep : before.left ≤ depth)
    (enough : before.left < rounds) :
    (iterateFor (operandStep (term depth)) rounds sofar).Succeeds context before after := by
  obtain ⟨rounds, rfl⟩ := Nat.exists_eq_add_one_of_ne_zero (Nat.ne_zero_of_lt enough)
  cases tree with
  | nil =>
      have stopped := offered.reads.eq_of_nil
      subst stopped
      refine ⟨sofar, iterateFor_eq_done_iff.2 (.inl ?_)⟩
      exact operandStep_eq_done_iff.2 (.inl ⟨rfl, rfl, ends.operator⟩)
  | cons operator operand others =>
      rw [Operands.yield, Operands.demands, List.cons_append] at offered
      obtain ⟨start, mark, phrase⟩ := offered.head
      obtain ⟨middle, one, two⟩ := phrase.split
      have endsOperand := others.endsTerm ends
      rw [← two.reads.nextKind?_eq] at endsOperand
      have read := mark.left
      have shorter := one.left
      rw [List.length_singleton] at read
      have found : (term depth).Succeeds context start middle :=
        term_of_offers operand one endsOperand (by omega)
      obtain ⟨code, ran⟩ := found
      have others : (iterateFor (operandStep (term depth)) rounds
          ((sofar ++ code).binary operator)).Succeeds context middle after :=
        operands_of_offers others two ends (by omega) (by omega)
      obtain ⟨result, rest⟩ := others
      refine ⟨result, iterateFor_eq_done_iff.2 (.inr ⟨_, middle, ?_, rest⟩)⟩
      exact operandStep_eq_done_iff.2 (.inr ⟨operator, code, start, mark, ran, rfl⟩)

/-- A term that is offered succeeds, with depth to spare. -/
theorem term_of_offers (tree : Term) {depth : Nat} {before after : PassState σ}
    (offered : Offers context environment before tree.yield (tree.demands environment) after)
    (ends : EndsTerm after.nextKind?) (deep : before.left ≤ depth) :
    (term depth).Succeeds context before after := by
  -- A term reads a token, so there is a level left for it.
  obtain ⟨depth, rfl⟩ : ∃ below, depth = below + 1 := by
    obtain ⟨first, others, shape, _⟩ := tree.opens
    have size := offered.left
    rw [shape, List.length_cons] at size
    exact ⟨depth - 1, by omega⟩
  cases tree with
  | integer value => exact succeeds_term offered.reads fun token shown => succeeds_pure _
  | string contents =>
      apply succeeds_term offered.reads
      intro token shown
      exact ⟨_, (stringTerm_eq_done_iff shown).2 ⟨Code.toList_ofList _, rfl⟩⟩
  | constant value =>
      apply succeeds_term offered.reads
      intro token shown
      cases value <;> exact succeeds_pure _
  | name text =>
      apply succeeds_term offered.reads
      intro token shown
      have same := offered.reads.environment.trans offered.names
      exact succeeds_name shown same (offered.met _ List.mem_cons_self) ends
  | element array index =>
      simp only [Term.yield, Term.demands, List.cons_append, List.nil_append] at offered
      obtain ⟨named, move, bracketed⟩ := offered.head
      obtain ⟨inside, opening, phrase⟩ := bracketed.head
      obtain ⟨visible, met⟩ := List.forall_mem_cons.1 offered.met
      obtain ⟨behind, one, closing⟩ := phrase.last
      have read := (move.trans opening).left
      have endsIndex : EndsExpression behind.nextKind? := by
        rw [closing.nextKind?]
        exact endsExpression_of_mark .rightBracket (by simp)
      simp only [List.length_append, List.length_cons, List.length_nil] at read
      have found : (expressionOf (term depth)).Succeeds context inside behind :=
        expression_of_offers index ⟨one.reads, one.names, met, one.room⟩ endsIndex (by omega)
      apply succeeds_term move
      intro token shown
      exact succeeds_element shown (move.environment.trans offered.names) visible opening found
        closing
  | call call =>
      have found := call_of_offers call offered deep fun _ => rfl
      obtain ⟨text, others, shape, goesOn⟩ := call.opens
      rw [Term.yield, shape] at offered
      obtain ⟨named, move, phrase⟩ := offered.head
      have next : named.nextKind? = some (.punctuation .leftParen) ∨
          named.nextKind? = some (.punctuation .dot) := by
        rw [phrase.reads.nextKind?_eq]
        rcases goesOn with parenthesis | dot
        · exact .inl (by rw [parenthesis]; rfl)
        · exact .inr (by rw [dot]; rfl)
      exact succeeds_term move fun token shown => succeeds_call move next found
  | group inner =>
      simp only [Term.yield, Term.demands, List.cons_append, List.nil_append] at offered
      obtain ⟨inside, opening, phrase⟩ := offered.head
      obtain ⟨behind, one, closing⟩ := phrase.last
      have read := opening.left
      rw [List.length_singleton] at read
      have endsInner : EndsExpression behind.nextKind? := by
        rw [closing.nextKind?]
        exact endsExpression_of_mark .rightParen (by simp)
      have found : (expressionOf (term depth)).Succeeds context inside behind :=
        expression_of_offers inner one endsInner (by omega)
      apply succeeds_term opening
      intro token shown
      apply found.bind
      intro code
      exact succeeds_bind_of_done (expectMark_of_reads closing) (succeeds_pure _)
  | unary operator operand =>
      obtain ⟨start, mark, phrase⟩ := offered.head
      have read := mark.left
      rw [List.length_singleton] at read
      have below : (term depth).Succeeds context start after :=
        term_of_offers operand phrase ends (by omega)
      apply succeeds_term mark
      intro token shown
      cases operator <;> exact below.bind fun code => succeeds_pure _

/-- A call that is offered succeeds, with depth to spare. -/
theorem call_of_offers (tree : Call) {depth : Nat} {part : Pass σ Code}
    {before after : PassState σ}
    (offered : Offers context environment before tree.yield (tree.demands environment) after)
    (deep : before.left ≤ depth + 1)
    (same : ∀ state, part.run context state = (expressionOf (term depth)).run context state) :
    (subroutineCall part).Succeeds context before after := by
  cases tree with
  | own subroutine arguments =>
      simp only [Call.yield, Call.demands, List.cons_append, List.nil_append] at offered
      obtain ⟨met, small⟩ := List.forall_mem_append.1 offered.met
      have bound : arguments.count + 1 ≤ maxCount := small _ List.mem_cons_self
      obtain ⟨named, move, opened⟩ := offered.head
      obtain ⟨inside, opening, phrase⟩ := opened.head
      obtain ⟨behind, one, closing⟩ := phrase.last
      have read := (move.trans opening).left
      simp only [List.length_append, List.length_cons, List.length_nil] at read
      have list := list_of_items ⟨one.reads, one.names, met, one.room⟩ closing.nextKind?
        fun nonempty => arguments_of_offers arguments nonempty
          ⟨one.reads, one.names, met, one.room⟩ closing.nextKind? (by omega) one.room
          (by simp; omega) same
      exact succeeds_own move opening.nextKind? (exists_arguments opening list closing) bound
  | qualified owner subroutine arguments =>
      simp only [Call.yield, Call.demands, List.cons_append, List.nil_append] at offered
      obtain ⟨met, small⟩ := List.forall_mem_append.1 offered.met
      have bound : arguments.count + (if (environment.place? owner).isSome then 1 else 0) ≤
          maxCount := small _ List.mem_cons_self
      obtain ⟨named, first, dotted⟩ := offered.head
      obtain ⟨member, dot, called⟩ := dotted.head
      obtain ⟨middle, second, opened⟩ := called.head
      obtain ⟨inside, opening, phrase⟩ := opened.head
      obtain ⟨behind, one, closing⟩ := phrase.last
      have read := (((first.trans dot).trans second).trans opening).left
      simp only [List.length_append, List.length_cons, List.length_nil] at read
      have list := list_of_items ⟨one.reads, one.names, met, one.room⟩ closing.nextKind?
        fun nonempty => arguments_of_offers arguments nonempty
          ⟨one.reads, one.names, met, one.room⟩ closing.nextKind? (by omega) one.room
          (by simp; omega) same
      exact succeeds_qualified offered.names first dot second
        (exists_arguments opening list closing) bound

/-- Arguments that are offered succeed, with depth and rounds to spare, if they can be counted. -/
theorem arguments_of_offers (tree : Arguments) {depth rounds : Nat} {part : Pass σ Code}
    {sofar : Code} {count : UInt16} {before after : PassState σ} (nonempty : tree ≠ .nil)
    (offered : Offers context environment before tree.yield (tree.demands environment) after)
    (closed : after.nextKind? = some (.punctuation .rightParen)) (deep : before.left ≤ depth)
    (enough : before.left < rounds) (small : count.toNat + tree.count ≤ maxCount)
    (same : ∀ state, part.run context state = (expressionOf (term depth)).run context state) :
    ∃ result total, (iterateFor (separatedStep (argumentItem part)) rounds (sofar, count)).run
      context before = .done (result, total) after ∧ total.toNat = count.toNat + tree.count := by
  obtain ⟨rounds, rfl⟩ := Nat.exists_eq_add_one_of_ne_zero (Nat.ne_zero_of_lt enough)
  cases tree with
  | nil => exact absurd rfl nonempty
  | cons first others =>
      rw [Arguments.yield, Arguments.demands] at offered
      rw [Arguments.count] at small ⊢
      obtain ⟨middle, one, two⟩ := offered.split
      have shorter := one.left
      have endsFirst := others.endsExpression
      rw [← closed, ← two.reads.nextKind?_eq] at endsFirst
      have found : (expressionOf (term depth)).Succeeds context before middle :=
        expression_of_offers first one endsFirst deep
      obtain ⟨code, ran⟩ := found
      rw [← same] at ran
      have unit : (1 : UInt16).toNat = 1 := rfl
      have room : count.toNat + (1 : UInt16).toNat ≤ maxCount := by omega
      obtain ⟨next, added⟩ := exists_total room
      have item : (argumentItem part (sofar, count)).run context before =
          .done (sofar ++ code, next) middle :=
        argumentItem_eq_done_iff.2 ⟨code, ran, rfl, added⟩
      by_cases more : others = .nil
      · subst more
        have stopped := two.reads.eq_of_nil
        subst stopped
        exact ⟨_, _, separated_eq_done_iff.2 (.inl ⟨item, by simp [closed]⟩), added⟩
      · rw [Arguments.following_eq more] at two
        obtain ⟨later, comma, phrase⟩ := two.head
        have read := comma.left
        rw [List.length_singleton] at read
        have found : ∃ result total, (iterateFor (separatedStep (argumentItem part)) rounds
            (sofar ++ code, next)).run context later = .done (result, total) after ∧
              total.toNat = next.toNat + others.count :=
          arguments_of_offers others more phrase closed (by omega) (by omega) (by omega) same
        obtain ⟨result, total, rest, counted⟩ := found
        refine ⟨result, total, separated_eq_done_iff.2 (.inr ⟨_, _, _, item, comma, rest⟩), ?_⟩
        omega

end

/-- A whole expression. -/
theorem wholeExpression_of_offers (tree : Expression) {before after : PassState σ}
    (offered : Offers context environment before tree.yield (tree.demands environment) after)
    (ends : EndsExpression after.nextKind?) : expression.Succeeds context before after :=
  expression_of_offers tree offered ends (Nat.le_of_lt offered.room)

/-- A call outside of an expression. -/
theorem wholeCall_of_offers (tree : Call) {before after : PassState σ}
    (offered : Offers context environment before tree.yield (tree.demands environment) after) :
    (subroutineCall expression).Succeeds context before after :=
  call_of_offers tree offered (Nat.le_succ_of_le (Nat.le_of_lt offered.room)) fun _ => rfl

end Pass

end JackCompiler
