import JackCompiler.Proofs.Comparison.Steps

/-!
# Recognisers of passes over two texts

Each recogniser ends in the same way over two texts. The cases follow the definitions. All but those
of possibly empty lists read a token; a nested term or block is entered with fewer tokens left than
levels, which is why no nesting comes to its bound, also where a name is made unread for a call.
-/

namespace JackCompiler

namespace Comparison

variable {σ : Type} {comparison : Comparison} {limit : Nat}

/-! ## Expressions -/

section Expressions

variable {part part' : Pass σ Code}

theorem moves_nextOperator? :
    comparison.Moves (σ := σ) 0 limit Eq Pass.nextOperator? Pass.nextOperator? := by
  intro state state' level _ _
  refine (concur_peek? level).bind ?_
  rintro _ _ middle middle' reached ⟨paired | _, rfl⟩
  · refine concur_pure reached ⟨?_, Nat.le_refl _⟩
    exact congrArg BinaryOperator.ofKind? (comparison.kind_eq paired)
  · exact concur_pure reached ⟨rfl, Nat.le_refl _⟩

/-- Every round but the last reads an operator. -/
theorem moves_expressionOf (term : comparison.Moves 1 limit Eq part part') :
    comparison.Moves 1 limit Eq (Pass.expressionOf part) (Pass.expressionOf part') := by
  refine term.firstSame fun first state state' level begun below => ?_
  refine concur_iterate (fun _ now => now.left ≤ state.left) ?_ level (Nat.le_refl _)
  intro code now now' level notMore
  refine (moves_nextOperator? level (by omega) (Nat.lt_succ_self _)).bind ?_
  rintro (_ | operator) _ middle middle' level ⟨rfl, went⟩
  · exact concur_pure level ⟨rfl, by show middle.left ≤ _; omega⟩
  · refine (concur_advance level).bind fun {_ _ after after'} level read => ?_
    have fewer := read.left
    refine (term level (by omega) (by omega)).bind ?_
    rintro operand _ after after' level ⟨rfl, went'⟩
    exact concur_pure level ⟨rfl, by omega, by show after.left ≤ _; omega⟩

/-- Lists of expressions move if expressions do; they may be empty. -/
theorem moves_expressionList (expression : comparison.Moves 1 limit Eq part part') :
    comparison.Moves 0 limit Eq (Pass.expressionList part) (Pass.expressionList part') := by
  refine (moves_nextSatisfies _).bindSame ?_
  rintro (_ | _)
  · refine (moves_separated ?_ _).weaken (Nat.zero_le 1) (Nat.le_refl limit)
    rintro ⟨code, count⟩
    refine expression.firstSame fun argument => ?_
    exact (moves_sum _ _ _).bindSame fun count => moves_pure rfl
  · exact moves_pure rfl

/-- Arguments move if expressions do. -/
theorem moves_arguments (expression : comparison.Moves 1 limit Eq part part') :
    comparison.Moves 0 limit Eq (Pass.arguments part) (Pass.arguments part') := by
  refine (moves_expectMark _).bindSame fun _ => ?_
  exact (moves_expressionList expression).bindSame fun list => moves_closed rfl

/-- The name in front of a call leaves fewer tokens for its arguments. -/
theorem moves_subroutineCall (expression : comparison.Moves 1 limit Eq part part') :
    comparison.Moves 1 (limit + 1) Eq (Pass.subroutineCall part) (Pass.subroutineCall part') := by
  refine moves_name.innerSame fun owner => (moves_take _).bindSame ?_
  rintro (_ | _)
  · refine (moves_arguments expression).bindSame ?_
    rintro ⟨code, count⟩
    refine (moves_sum _ _ _).bindSame fun count => ?_
    exact moves_className.bindSame fun _ => moves_pure rfl
  · refine moves_name.bindSame fun subroutine => (moves_lookup? owner).bindSame ?_
    rintro (_ | receiver)
    · refine (moves_arguments expression).bindSame ?_
      rintro ⟨code, count⟩
      exact moves_pure rfl
    · refine (moves_arguments expression).bindSame ?_
      rintro ⟨code, count⟩
      exact (moves_sum _ _ _).bindSame fun count => moves_pure rfl

/-- An element of an array moves if its index does. -/
theorem moves_arrayElement (expression : comparison.Moves 1 limit Eq part part')
    (array : Variable) :
    comparison.Moves 0 limit Eq (Pass.arrayElement part array) (Pass.arrayElement part' array) :=
  moves_advance.bind fun _ _ _ => expression.bindSame fun _ => moves_closed rfl

/-- A name that was read as the start of a call is made unread, and the call starts where the name
stood: with one token more left, but no more than before the name. -/
theorem concur_nameTerm {state state' : PassState σ}
    (expression : comparison.Moves 1 limit Eq part part') {token other : Token}
    (paired : comparison.left.Pairs comparison.right token other)
    (kind : token.kind = .identifier) (level : comparison.Level state state')
    (begun : state.left + 1 < comparison.left.tokens.length) (below : state.left < limit) :
    comparison.Concur (Pass.nameTerm part token) (Pass.nameTerm part' other) state state'
      fun code code' after => code = code' ∧ after.left ≤ state.left := by
  refine (concur_peek? level).bind ?_
  rintro next? other? middle middle' reached ⟨same, rfl⟩
  have kinds : next?.map Token.kind = other?.map Token.kind := by
    cases same with
    | none => rfl
    | some paired => exact congrArg some (comparison.kind_eq paired)
  have call : comparison.Concur (Pass.unread >>= fun _ => Pass.subroutineCall part)
      (Pass.unread >>= fun _ => Pass.subroutineCall part') middle middle'
      fun code code' after => code = code' ∧ after.left ≤ middle.left := by
    refine (concur_unread reached (by omega)).bind fun level back => ?_
    refine (moves_subroutineCall expression level (by omega) (by omega)).mono ?_
    rintro code _ after ⟨rfl, went⟩
    exact ⟨rfl, by omega⟩
  rw [← kinds]
  split
  · exact (moves_resolve paired kind).bindSame (moves_arrayElement expression) reached
      (by omega) below
  · exact call
  · exact call
  · exact (moves_resolve paired kind).bindSame (fun _ => moves_pure rfl) reached (by omega) below

/-- The string constants of paired tokens move: the same contents are appended. -/
theorem moves_stringTerm {token other : Token}
    (paired : comparison.left.Pairs comparison.right token other) (kind : token.kind = .string) :
    comparison.Moves (σ := σ) 0 limit Eq (Pass.stringTerm token) (Pass.stringTerm other) := by
  intro state state' level _ _
  obtain ⟨same, found, short⟩ := comparison.contents_eq paired kind
  refine (concur_required level same found).bind ?_
  rintro contents _ middle middle' reached ⟨rfl, isContents, rfl⟩
  cases isCode : Code.stringConstant? contents with
  | none => exact concur_breakOff reached (short contents isContents isCode)
  | some code => exact concur_pure reached ⟨rfl, Nat.le_refl _⟩

/-- A term is entered with fewer tokens left than levels of nesting. The induction is on the levels:
the first token of a term leaves fewer for the terms in it. -/
theorem moves_term (depth : Nat) :
    comparison.Moves (σ := σ) 1 depth Eq (Pass.term depth) (Pass.term depth) := by
  induction depth with
  | zero => exact fun _ _ _ _ below => absurd below (Nat.not_lt_zero _)
  | succ depth inductionHypothesis =>
      have inner := moves_expressionOf inductionHypothesis
      intro state state' level begun below
      refine (concur_advance level).bind ?_
      intro token other middle middle' level read
      have fewer := read.left
      have rest {part part' : Pass σ Code} (moves : comparison.Moves 0 depth Eq part part') :
          comparison.Concur part part' middle middle'
            fun code code' after => code = code' ∧ after.left + 1 ≤ state.left := by
        refine (moves level (by omega) (by omega)).mono ?_
        rintro code _ after ⟨rfl, went⟩
        exact ⟨rfl, by omega⟩
      rw [← comparison.kind_eq read.paired]
      cases KeywordConstant.ofKind? token.kind with
      | some constant => exact rest (moves_pure rfl)
      | none =>
          cases UnaryOperator.ofKind? token.kind with
          | some operator => exact rest (inductionHypothesis.bindSame fun _ => moves_pure rfl)
          | none =>
              cases kind : token.kind with
              | integer value => exact rest (moves_pure rfl)
              | string => exact rest (moves_stringTerm read.paired kind)
              | identifier =>
                  refine (concur_nameTerm inner read.paired kind level (by omega)
                    (by omega)).mono ?_
                  rintro code _ after ⟨rfl, went⟩
                  exact ⟨rfl, by omega⟩
              | punctuation mark =>
                  cases mark with
                  | leftParen => exact rest (inner.bindSame fun _ => moves_closed rfl)
                  | _ => exact rest (moves_reject read.paired _)
              | keyword word => exact rest (moves_reject read.paired _)

/-- Expressions move. -/
theorem moves_expression :
    comparison.Moves (σ := σ) 1 limit Eq Pass.expression Pass.expression := by
  intro state state' level begun below
  unfold Concur Pass.expression
  rw [Pass.run_bind_of_done (Pass.run_context _ _), Pass.run_bind_of_done (Pass.run_context _ _),
    context_bound]
  exact moves_expressionOf (moves_term comparison.left.context.bound) level begun
    (Nat.lt_succ_of_lt begun)

end Expressions

/-! ## Statements -/

section Statements

variable {part part' : Pass σ Code}

/-- Tests move. -/
theorem moves_condition :
    comparison.Moves (σ := σ) 1 limit Eq Pass.condition Pass.condition :=
  (moves_expectMark _).firstSame fun _ => moves_expression.bindSame fun _ => moves_closed rfl

/-- The opening brace leaves fewer tokens for the statements in a block. -/
theorem moves_blockOf (statements : comparison.Moves 0 limit Eq part part') :
    comparison.Moves 1 (limit + 1) Eq (Pass.blockOf part) (Pass.blockOf part') :=
  (moves_expectMark _).innerSame fun _ => statements.bindSame fun _ => moves_closed rfl

/-- Assignments to elements move. -/
theorem moves_elementAssignment (array : Variable) :
    comparison.Moves (σ := σ) 0 limit Eq (Pass.elementAssignment array)
      (Pass.elementAssignment array) := by
  refine moves_expression.bindSame fun _ => (moves_expectMark _).bindSame fun _ => ?_
  refine (moves_expectMark _).bindSame fun _ => moves_expression.bindSame fun _ => ?_
  exact moves_pure rfl

/-- Assignments to variables move. -/
theorem moves_variableAssignment (target : Variable) :
    comparison.Moves (σ := σ) 0 limit Eq (Pass.variableAssignment target)
      (Pass.variableAssignment target) :=
  (moves_expectMark _).bindSame fun _ => moves_expression.bindSame fun _ => moves_pure rfl

/-- Assignments move. -/
theorem moves_letStatement :
    comparison.Moves (σ := σ) 1 limit Eq Pass.letStatement Pass.letStatement := by
  refine (moves_expect _).first ?_
  rintro token other ⟨paired, kind⟩
  refine (moves_resolve paired kind).bindSame fun target => (moves_take _).bindSame ?_
  rintro (_ | _)
  · exact (moves_variableAssignment target).bindSame fun _ => moves_closed rfl
  · exact (moves_elementAssignment target).bindSame fun _ => moves_closed rfl

/-- Calls as statements move. -/
theorem moves_doStatement :
    comparison.Moves (σ := σ) 0 limit Eq Pass.doStatement Pass.doStatement := by
  have call : comparison.Moves (σ := σ) 1 limit Eq (Pass.subroutineCall Pass.expression)
      (Pass.subroutineCall Pass.expression) :=
    (moves_subroutineCall moves_expression).weaken (Nat.le_refl 1) (Nat.le_succ limit)
  exact call.bindSame fun _ => moves_closed rfl

/-- Returns move. -/
theorem moves_returnStatement :
    comparison.Moves (σ := σ) 0 limit Eq Pass.returnStatement Pass.returnStatement := by
  refine (moves_take _).bindSame ?_
  rintro (_ | _)
  · exact moves_expression.bindSame fun _ => moves_closed rfl
  · exact moves_pure rfl

variable [LabelSource σ]

/-- Choices move if their blocks do. -/
theorem moves_ifStatement (block : comparison.Moves 1 limit Eq part part') :
    comparison.Moves 0 limit Eq (Pass.ifStatement part) (Pass.ifStatement part') := by
  refine moves_draw.bindSame fun _ => moves_draw.bindSame fun _ => ?_
  refine moves_condition.bindSame fun _ => block.bindSame fun _ => (moves_take _).bindSame ?_
  rintro (_ | _)
  · exact moves_pure rfl
  · exact block.bindSame fun _ => moves_pure rfl

/-- Loops move if their blocks do. -/
theorem moves_whileStatement (block : comparison.Moves 1 limit Eq part part') :
    comparison.Moves 0 limit Eq (Pass.whileStatement part) (Pass.whileStatement part') := by
  refine moves_draw.bindSame fun _ => moves_draw.bindSame fun _ => ?_
  exact moves_condition.bindSame fun _ => block.bindSame fun _ => moves_pure rfl

/-- Every round reads the keyword of a statement, or the last one steps back over another token. -/
theorem moves_statementsOf (block : comparison.Moves 1 limit Eq part part') :
    comparison.Moves 0 limit Eq (Pass.statementsOf part) (Pass.statementsOf part') := by
  intro state state' level begun below
  refine concur_iterate (fun _ now => now.left ≤ state.left) ?_ level (Nat.le_refl _)
  intro code now now' level notMore
  refine (concur_advance level).bind ?_
  intro token other middle middle' level read
  have fewer := read.left
  have statement {part part' : Pass σ Code} (moves : comparison.Moves 0 limit Eq part part') :
      comparison.Concur (do pure (.inl (code ++ (← part)))) (do pure (.inl (code ++ (← part'))))
        middle middle' fun outcome outcome' after => outcome = outcome' ∧
          Sum.elim (fun _ => after.left < now.left ∧ after.left ≤ state.left)
            (fun _ : Code => after.left ≤ state.left) outcome := by
    refine (moves level (by omega) (by omega)).bind ?_
    rintro more _ after after' level ⟨rfl, went⟩
    exact concur_pure level ⟨rfl, by omega, by omega⟩
  rw [← comparison.kind_eq read.paired]
  split
  · exact statement (moves_letStatement.weaken (Nat.zero_le 1) (Nat.le_refl limit))
  · exact statement (moves_ifStatement block)
  · exact statement (moves_whileStatement block)
  · exact statement moves_doStatement
  · exact statement moves_returnStatement
  · refine (concur_unread level (by omega)).bind fun {_ _ after after'} level back => ?_
    exact concur_pure level ⟨rfl, by show after.left ≤ _; omega⟩

/-- Statements of any depth move where fewer tokens are left, by induction on the depth. -/
theorem moves_statementsWithin (depth : Nat) :
    comparison.Moves (σ := σ) 0 depth Eq (Pass.statementsWithin depth)
      (Pass.statementsWithin depth) := by
  induction depth with
  | zero => exact fun _ _ _ _ below => absurd below (Nat.not_lt_zero _)
  | succ depth inductionHypothesis => exact moves_statementsOf (moves_blockOf inductionHypothesis)

/-- Statements move. -/
theorem moves_statements :
    comparison.Moves (σ := σ) 0 limit Eq Pass.statements Pass.statements := by
  intro state state' level begun below
  unfold Concur Pass.statements
  rw [Pass.run_bind_of_done (Pass.run_context _ _), Pass.run_bind_of_done (Pass.run_context _ _),
    context_bound]
  exact moves_statementsWithin comparison.left.context.bound level begun
    (Nat.lt_succ_of_lt begun)

end Statements

/-! ## Classes -/

section Classes

/-- Variables of a class move. -/
theorem moves_classVariables :
    comparison.Moves (σ := σ) 1 limit Eq Pass.classVariables Pass.classVariables := by
  refine (moves_expectAny _).first ?_
  rintro keyword other ⟨paired, _⟩
  rw [← comparison.kind_eq paired]
  refine moves_typeName.bindSame fun type => ?_
  refine (moves_separated ?_ ()).bindSame fun _ => ?_
  · exact fun _ => moves_name.firstSame fun name => moves_defineInClass name type _
  · exact (moves_expectMark _).weaken (Nat.zero_le 1) (Nat.le_refl limit)

/-- Parameters move. -/
theorem moves_parameters :
    comparison.Moves (σ := σ) 1 limit Eq Pass.parameters Pass.parameters := by
  refine (moves_expectMark _).firstSame fun _ => (moves_take _).bindSame ?_
  rintro (_ | _)
  · refine (moves_separated ?_ ()).bindSame fun _ => ?_
    · intro _
      refine moves_typeName.firstSame fun type => moves_name.bindSame fun name => ?_
      exact moves_defineInSubroutine _ name type _
    · exact (moves_expectMark _).weaken (Nat.zero_le 1) (Nat.le_refl limit)
  · exact moves_pure rfl

/-- The count of the locals of a declaration is at most that of the table, which has room for each of
them. -/
theorem moves_localVariables :
    comparison.Moves (σ := σ) 1 limit Eq Pass.localVariables Pass.localVariables := by
  refine (moves_expect _).first fun _ _ _ => moves_typeName.bindSame fun type => ?_
  refine (Moves.firstSame ?_ fun count => moves_closed rfl).weaken (Nat.zero_le 1)
    (Nat.le_refl limit)
  intro state state' level begun below
  refine concur_separated (fun count scope => count.toNat ≤
    (scope.ofSubroutine.count .local).toNat) ?_ level (Nat.zero_le _)
  intro count now now' level notMore counted
  refine (concur_name level).bind ?_
  rintro name _ middle middle' level ⟨rfl, went, scope⟩
  refine (concur_defineInSubroutine level (by omega) _ name type _).bind ?_
  rintro _ _ after after' level ⟨left, symbol, defined⟩
  obtain ⟨room, counts⟩ := SymbolTable.toNat_count_of_define? defined
  have counted' := counts .local
  rw [scope] at room counted'
  have notFull : count ≠ 65535 := by
    rintro rfl
    exact absurd (Nat.lt_of_le_of_lt counted room) (by decide)
  simp only [if_neg notFull]
  refine concur_pure level ⟨rfl, by omega, ?_⟩
  rw [counted', if_pos rfl, UInt16.toNat_add]
  exact Nat.le_trans (Nat.mod_le _ _) (Nat.succ_le_succ counted)

/-- All local variables move. -/
theorem moves_allLocalVariables :
    comparison.Moves (σ := σ) 0 limit Eq Pass.allLocalVariables Pass.allLocalVariables := by
  refine moves_whileNext _ ?_ _
  exact fun count => moves_localVariables.firstSame fun more => moves_sum _ count more

variable [LabelSource σ]

/-- The body of a subroutine moves. -/
theorem moves_subroutineBody :
    comparison.Moves (σ := σ) 1 limit Eq Pass.subroutineBody Pass.subroutineBody := by
  refine (moves_expectMark _).firstSame fun _ => moves_allLocalVariables.bindSame fun locals => ?_
  exact moves_statements.bindSame fun _ => moves_closed rfl

/-- Subroutines move. -/
theorem moves_subroutine :
    comparison.Moves (σ := σ) 1 limit Eq Pass.subroutine Pass.subroutine := by
  refine (moves_expectAny _).first ?_
  rintro keyword other ⟨paired, _⟩
  rw [← comparison.kind_eq paired]
  refine moves_openSubroutine.bindSame fun _ => (moves_expectAny _).bind fun _ _ _ => ?_
  refine moves_name.bindSame fun ownName => moves_className.bindSame fun owner => ?_
  have finish (header : Code) (body : Code) :
      comparison.Moves (σ := σ) 0 limit Eq
        (do pure (header ++ Pass.prologue keyword.kind (← Pass.state).scope.fieldCount ++ body))
        (do pure (header ++ Pass.prologue keyword.kind (← Pass.state).scope.fieldCount ++
          body)) := by
    intro state state' level _ _
    exact .done level ⟨by rw [level.scope], Nat.le_refl _⟩
  split
  · refine (moves_defineInSubroutine _ _ _ _).bindSame fun _ => moves_parameters.bindSame fun _ => ?_
    exact moves_subroutineBody.bindSame fun _ => finish _ _
  · refine moves_parameters.bindSame fun _ => ?_
    exact moves_subroutineBody.bindSame fun _ => finish _ _

/-- The class as a whole. Before its first token none was read, but none has to be. -/
theorem concur_classDeclaration {state state' : PassState σ}
    (level : comparison.Level state state') :
    comparison.Concur Pass.classDeclaration Pass.classDeclaration state state'
      fun code code' _ => code = code' := by
  refine (concur_expect level _).bind ?_
  rintro _ _ middle middle' reached ⟨read, _⟩
  have begun : middle.left < comparison.left.tokens.length := by
    have fewer := read.left
    have all := level.left_le
    omega
  refine ((moves_name.bindSame fun name => ?_ :
    comparison.Moves 0 comparison.left.tokens.length Eq _ _) reached begun begun).mono And.left
  refine (moves_setClassName name).bindSame fun _ => (moves_expectMark _).bindSame fun _ => ?_
  refine (moves_whileNext _ (fun _ => moves_classVariables) ()).bindSame fun _ => ?_
  refine (moves_whileNext _ ?_ _).bindSame fun code => (moves_expectMark _).bindSame fun _ => ?_
  · exact fun _ => moves_subroutine.firstSame fun _ => moves_pure rfl
  · intro now now' level _ _
    refine (concur_peek? level).bind ?_
    rintro _ _ after after' reached ⟨paired | _, rfl⟩
    · dsimp only
      rw [← comparison.kind_eq paired]
      exact concur_reject reached paired _
    · exact concur_pure reached ⟨rfl, Nat.le_refl _⟩

end Classes

end Comparison

end JackCompiler
