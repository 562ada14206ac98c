import JackCompiler.Proofs.Grammar.Follow

/-!
# The grammar is unambiguous

Two trees with the same yield are the same. The statements are about yields with something behind
them that does not continue the phrase, and also say that what is behind is the same.
-/

namespace JackCompiler.Grammar

/-- Operators are told apart by their marks. -/
theorem BinaryOperator.mark_injective {left right : BinaryOperator}
    (same : left.mark = right.mark) : left = right := by
  have found := BinaryOperator.ofKind?_eq_some_iff.2 (congrArg Token.Kind.punctuation same)
  have known : BinaryOperator.ofKind? (.punctuation left.mark) = some left :=
    BinaryOperator.ofKind?_eq_some_iff.2 rfl
  exact Option.some.inj (known.symm.trans found)

/-- The mark tells the unary operator. -/
theorem UnaryOperator.mark_injective {left right : UnaryOperator}
    (same : left.mark = right.mark) : left = right := by
  cases left <;> cases right <;> first | rfl | cases same

/-- The reserved word tells the constant. -/
theorem KeywordConstant.word_injective {left right : KeywordConstant}
    (same : left.word = right.word) : left = right := by
  cases left <;> cases right <;> first | rfl | cases same

/-- The mark behind an array or a called name continues a name, so a name alone is not one of
them. -/
theorem not_ends_of_continues {sign : Punctuation} {rest following : List Terminal}
    (ends : EndsTerm (nextKind? rest)) (continues : continuesName (.punctuation sign))
    (same : rest = .mark sign :: following) : False := by
  rw [same] at ends
  simp only [EndsTerm, nextKind?_cons, Terminal.kind, Option.any_some] at ends
  rw [continues] at ends
  cases ends

/-- What ends an expression is no operator. -/
theorem not_ends_of_operator {operator : BinaryOperator} {rest following : List Terminal}
    (ends : EndsExpression (nextKind? rest)) (same : rest = .mark operator.mark :: following) :
    False := by
  have known : BinaryOperator.ofKind? (.punctuation operator.mark) = some operator :=
    BinaryOperator.ofKind?_eq_some_iff.2 rfl
  have none := ends.operator
  rw [same] at none
  exact Option.some_ne_none operator (known.symm.trans none)

/-- An expression does not start with the closing parenthesis of no arguments. -/
theorem Expression.not_closed (expression : Expression) {rest following : List Terminal}
    (same : .mark .rightParen :: rest = expression.yield ++ following) : False := by
  obtain ⟨first, others, shape, opens⟩ := expression.opens
  rw [shape] at same
  exact opens.1 (congrArg Terminal.kind (List.head_eq_of_cons_eq same)).symm

/-- A call starts with a name that goes on. -/
theorem Call.continues (call : Call) {rest rest' : List Terminal} {text : String}
    (ends : EndsTerm (nextKind? rest)) (same : .name text :: rest = call.yield ++ rest') :
    False := by
  cases call with
  | own subroutine arguments =>
      exact not_ends_of_continues ends rfl (List.tail_eq_of_cons_eq same)
  | qualified owner subroutine arguments =>
      exact not_ends_of_continues ends rfl (List.tail_eq_of_cons_eq same)

/-- Whatever does not start with a name is no call. -/
theorem Call.not_other (call : Call) {rest following : List Terminal} {first : Terminal}
    (other : first.kind ≠ .identifier) (same : first :: following = call.yield ++ rest) :
    False := by
  obtain ⟨text, others, shape, _⟩ := call.opens
  rw [shape] at same
  exact other (congrArg Terminal.kind (List.head_eq_of_cons_eq same))

/-- The name of a call does not go on as that of an array does. -/
theorem Call.not_element (call : Call) {rest following : List Terminal} {text : String}
    (same : .name text :: .mark .leftBracket :: following = call.yield ++ rest) : False := by
  cases call <;> simp [Call.yield] at same

mutual

/-- The yield of an expression tells the expression, and what is behind it. -/
theorem Expression.unique {rest rest' : List Terminal} (left right : Expression)
    (ends : EndsExpression (nextKind? rest)) (ends' : EndsExpression (nextKind? rest'))
    (same : left.yield ++ rest = right.yield ++ rest') : left = right ∧ rest = rest' := by
  cases left with
  | mk first others =>
      cases right with
      | mk first' others' =>
          simp only [Expression.yield, List.append_assoc] at same
          obtain ⟨rfl, behind⟩ := Term.unique first first'
            (nextKind?_append _ _ ▸ others.endsTerm ends)
            (nextKind?_append _ _ ▸ others'.endsTerm ends') same
          obtain ⟨rfl, rfl⟩ := Operands.unique others others' ends ends' behind
          exact ⟨rfl, rfl⟩

/-- The yield of operands tells the operands. -/
theorem Operands.unique {rest rest' : List Terminal} (left right : Operands)
    (ends : EndsExpression (nextKind? rest)) (ends' : EndsExpression (nextKind? rest'))
    (same : left.yield ++ rest = right.yield ++ rest') : left = right ∧ rest = rest' := by
  cases left with
  | nil =>
      cases right with
      | nil => exact ⟨rfl, same⟩
      | cons operator operand others => exact (not_ends_of_operator ends same).elim
  | cons operator operand others =>
      cases right with
      | nil => exact (not_ends_of_operator ends' same.symm).elim
      | cons operator' operand' others' =>
          simp only [Operands.yield, List.cons_append, List.append_assoc, List.cons.injEq,
            Terminal.mark.injEq] at same
          obtain ⟨rfl, behind⟩ := Term.unique operand operand'
            (nextKind?_append _ _ ▸ others.endsTerm ends)
            (nextKind?_append _ _ ▸ others'.endsTerm ends') same.2
          obtain ⟨rfl, rfl⟩ := Operands.unique others others' ends ends' behind
          exact ⟨by rw [BinaryOperator.mark_injective same.1], rfl⟩

/-- The yield of a term tells the term: a name is read alone, before an index or before arguments.
-/
theorem Term.unique {rest rest' : List Terminal} (left right : Term)
    (ends : EndsTerm (nextKind? rest)) (ends' : EndsTerm (nextKind? rest'))
    (same : left.yield ++ rest = right.yield ++ rest') : left = right ∧ rest = rest' := by
  cases left with
  | integer value =>
      cases right with
      | integer value' => simpa [Term.yield] using same
      | call call => exact (call.not_other (by simp [Terminal.kind]) same).elim
      | _ => simp [Term.yield] at same
  | string contents =>
      cases right with
      | string contents' => simpa [Term.yield] using same
      | call call => exact (call.not_other (by simp [Terminal.kind]) same).elim
      | _ => simp [Term.yield] at same
  | constant value =>
      cases right with
      | constant value' =>
          simp only [Term.yield, List.cons_append, List.nil_append, List.cons.injEq,
            Terminal.keyword.injEq] at same
          exact ⟨by rw [KeywordConstant.word_injective same.1], same.2⟩
      | call call => exact (call.not_other (by simp [Terminal.kind]) same).elim
      | _ => simp [Term.yield] at same
  | name text =>
      cases right with
      | name text' => simpa [Term.yield] using same
      | element array index =>
          exact (not_ends_of_continues ends rfl (List.tail_eq_of_cons_eq same)).elim
      | call call => exact (call.continues ends same).elim
      | _ => simp [Term.yield] at same
  | element array index =>
      cases right with
      | name text =>
          exact (not_ends_of_continues ends' rfl (List.tail_eq_of_cons_eq same.symm)).elim
      | element array' index' =>
          simp only [Term.yield, List.cons_append, List.nil_append, List.append_assoc,
            List.cons.injEq, Terminal.name.injEq, true_and] at same
          have closes (following : List Terminal) :
              EndsExpression (nextKind? (.mark .rightBracket :: following)) :=
            endsExpression_of_mark .rightBracket (by simp)
          obtain ⟨rfl, behind⟩ := Expression.unique index index' (closes _) (closes _) same.2
          exact ⟨by rw [same.1], List.tail_eq_of_cons_eq behind⟩
      | call call => exact (call.not_element same).elim
      | _ => simp [Term.yield] at same
  | call call =>
      cases right with
      | call call' =>
          obtain ⟨rfl, rfl⟩ := Call.unique call call' same
          exact ⟨rfl, rfl⟩
      | name text => exact (call.continues ends' same.symm).elim
      | element array index => exact (call.not_element same.symm).elim
      | _ => exact (call.not_other (by simp [Terminal.kind]) same.symm).elim
  | group inner =>
      cases right with
      | group inner' =>
          simp only [Term.yield, List.cons_append, List.nil_append, List.append_assoc,
            List.cons.injEq, true_and] at same
          have closes (following : List Terminal) :
              EndsExpression (nextKind? (.mark .rightParen :: following)) :=
            endsExpression_of_mark .rightParen (by simp)
          obtain ⟨rfl, behind⟩ := Expression.unique inner inner' (closes _) (closes _) same
          exact ⟨rfl, List.tail_eq_of_cons_eq behind⟩
      | call call => exact (call.not_other (by simp [Terminal.kind]) same).elim
      | unary operator operand => cases operator <;> simp [Term.yield, UnaryOperator.mark] at same
      | _ => simp [Term.yield] at same
  | unary operator operand =>
      cases right with
      | unary operator' operand' =>
          simp only [Term.yield, List.cons_append, List.cons.injEq, Terminal.mark.injEq] at same
          obtain ⟨rfl, rfl⟩ := Term.unique operand operand' ends ends' same.2
          exact ⟨by rw [UnaryOperator.mark_injective same.1], rfl⟩
      | call call => exact (call.not_other (by simp [Terminal.kind]) same).elim
      | group inner => cases operator <;> simp [Term.yield, UnaryOperator.mark] at same
      | _ => simp [Term.yield] at same

/-- The yield of a call tells the call. -/
theorem Call.unique {rest rest' : List Terminal} (left right : Call)
    (same : left.yield ++ rest = right.yield ++ rest') : left = right ∧ rest = rest' := by
  cases left with
  | own subroutine arguments =>
      cases right with
      | own subroutine' arguments' =>
          simp only [Call.yield, List.cons_append, List.nil_append, List.append_assoc,
            List.cons.injEq, Terminal.name.injEq, true_and] at same
          obtain ⟨rfl, rfl⟩ := Arguments.unique arguments arguments' same.2
          exact ⟨by rw [same.1], rfl⟩
      | qualified owner' subroutine' arguments' => simp [Call.yield] at same
  | qualified owner subroutine arguments =>
      cases right with
      | own subroutine' arguments' => simp [Call.yield] at same
      | qualified owner' subroutine' arguments' =>
          simp only [Call.yield, List.cons_append, List.nil_append, List.append_assoc,
            List.cons.injEq, Terminal.name.injEq, true_and] at same
          obtain ⟨rfl, rfl⟩ := Arguments.unique arguments arguments' same.2.2
          exact ⟨by rw [same.1, same.2.1], rfl⟩

/-- The yield of arguments tells the arguments, up to their closing parenthesis. -/
theorem Arguments.unique {rest rest' : List Terminal} (left right : Arguments)
    (same : left.yield ++ .mark .rightParen :: rest = right.yield ++ .mark .rightParen :: rest') :
    left = right ∧ rest = rest' := by
  cases left with
  | nil =>
      cases right with
      | nil => exact ⟨rfl, List.tail_eq_of_cons_eq same⟩
      | cons first' others' =>
          simp only [Arguments.yield, List.append_assoc] at same
          exact (first'.not_closed same).elim
  | cons first others =>
      cases right with
      | nil =>
          simp only [Arguments.yield, List.append_assoc] at same
          exact (first.not_closed same.symm).elim
      | cons first' others' =>
          simp only [Arguments.yield, List.append_assoc] at same
          obtain ⟨rfl, behind⟩ := Expression.unique first first'
            (nextKind?_append _ _ ▸ others.endsExpression)
            (nextKind?_append _ _ ▸ others'.endsExpression) same
          obtain ⟨rfl, rfl⟩ := Arguments.following_unique others others' behind
          exact ⟨rfl, rfl⟩

/-- The yield of arguments behind a first one tells them, up to their closing parenthesis. -/
theorem Arguments.following_unique {rest rest' : List Terminal} (left right : Arguments)
    (same : left.following ++ .mark .rightParen :: rest =
      right.following ++ .mark .rightParen :: rest') :
    left = right ∧ rest = rest' := by
  cases left with
  | nil =>
      cases right with
      | nil => exact ⟨rfl, List.tail_eq_of_cons_eq same⟩
      | cons first' others' => simp [Arguments.following] at same
  | cons first others =>
      cases right with
      | nil => simp [Arguments.following] at same
      | cons first' others' =>
          simp only [Arguments.following, List.cons_append, List.append_assoc, List.cons.injEq,
            true_and] at same
          obtain ⟨rfl, behind⟩ := Expression.unique first first'
            (nextKind?_append _ _ ▸ others.endsExpression)
            (nextKind?_append _ _ ▸ others'.endsExpression) same
          obtain ⟨rfl, rfl⟩ := Arguments.following_unique others others' behind
          exact ⟨rfl, rfl⟩

end

/-! ## Statements -/

/-- An expression is told up to the mark that closes it. -/
theorem Expression.unique_upTo {sign : Punctuation} {rest rest' : List Terminal}
    (left right : Expression) (closes : sign ∈ [.rightParen, .rightBracket, .semicolon, .comma])
    (same : left.yield ++ .mark sign :: rest = right.yield ++ .mark sign :: rest') :
    left = right ∧ rest = rest' := by
  have ends (following : List Terminal) : EndsExpression (nextKind? (.mark sign :: following)) :=
    endsExpression_of_mark sign closes
  obtain ⟨rfl, behind⟩ := Expression.unique left right (ends rest) (ends rest') same
  exact ⟨rfl, List.tail_eq_of_cons_eq behind⟩

/-- No expression begins with a semicolon. -/
theorem Expression.not_semicolon (expression : Expression) {rest following : List Terminal}
    (same : .mark .semicolon :: rest = expression.yield ++ following) : False := by
  obtain ⟨first, others, shape, opens⟩ := expression.opens
  rw [shape] at same
  exact opens.2 (congrArg Terminal.kind (List.head_eq_of_cons_eq same)).symm

namespace Statement

variable {rest rest' : List Terminal}

/-- The yield of an assignment to a variable tells the variable and the value. -/
theorem assign_unique {target target' : String} {value value' : Expression}
    (same : (assign target value).yield ++ rest = (assign target' value').yield ++ rest') :
    assign target value = assign target' value' ∧ rest = rest' := by
  simp only [yield, List.cons_append, List.nil_append, List.append_assoc, List.cons.injEq,
    Terminal.name.injEq, true_and] at same
  obtain ⟨rfl, rfl⟩ := value.unique_upTo value' (by simp) same.2
  exact ⟨by rw [same.1], rfl⟩

/-- The yield of an assignment to an element tells the array, the index and the value. -/
theorem assignElement_unique {array array' : String} {index index' value value' : Expression}
    (same : (assignElement array index value).yield ++ rest =
      (assignElement array' index' value').yield ++ rest') :
    assignElement array index value = assignElement array' index' value' ∧ rest = rest' := by
  simp only [yield, List.cons_append, List.nil_append, List.append_assoc, List.cons.injEq,
    Terminal.name.injEq, true_and] at same
  obtain ⟨rfl, behind⟩ := index.unique_upTo index' (by simp) same.2
  simp only [List.cons.injEq, true_and] at behind
  obtain ⟨rfl, rfl⟩ := value.unique_upTo value' (by simp) behind
  exact ⟨by rw [same.1], rfl⟩

/-- The yield of a call as a statement tells the call. -/
theorem perform_unique {call call' : Call}
    (same : (perform call).yield ++ rest = (perform call').yield ++ rest') :
    perform call = perform call' ∧ rest = rest' := by
  simp only [yield, List.cons_append, List.nil_append, List.append_assoc, List.cons.injEq,
    true_and] at same
  obtain ⟨rfl, behind⟩ := call.unique call' same
  exact ⟨rfl, List.tail_eq_of_cons_eq behind⟩

/-- The yield of a return tells whether there is a value, and which. -/
theorem return_unique {value value' : Option Expression}
    (same : (Statement.return value).yield ++ rest = (Statement.return value').yield ++ rest') :
    Statement.return value = Statement.return value' ∧ rest = rest' := by
  cases value <;> cases value' <;>
    simp only [yield, List.cons_append, List.nil_append, List.append_assoc, List.cons.injEq,
      true_and] at same
  case none.none => exact ⟨rfl, same⟩
  case none.some value' => exact (value'.not_semicolon same).elim
  case some.none value => exact (value.not_semicolon same.symm).elim
  case some.some value value' =>
    obtain ⟨rfl, rfl⟩ := value.unique_upTo value' (by simp) same
    exact ⟨rfl, rfl⟩

/-- A return begins with a keyword of its own. -/
theorem return_apart {value : Option Expression} {word : Keyword} {following : List Terminal}
    (other : word ≠ .return)
    (same : (Statement.return value).yield ++ rest = .keyword word :: following) : False := by
  cases value <;>
    exact other (Terminal.keyword.inj (List.head_eq_of_cons_eq same)).symm

end Statement

mutual

/-- The yield of a statement tells the statement. -/
theorem Statement.unique {rest rest' : List Terminal} (left right : Statement)
    (ends : EndsChoice (nextKind? rest)) (ends' : EndsChoice (nextKind? rest'))
    (same : left.yield ++ rest = right.yield ++ rest') : left = right ∧ rest = rest' := by
  -- Statements of different kinds differ in their first three terminals.
  cases left with
  | assign target value =>
      cases right with
      | assign target' value' => exact Statement.assign_unique same
      | «return» value' => exact (Statement.return_apart (by decide) same.symm).elim
      | _ => simp [Statement.yield] at same
  | assignElement array index value =>
      cases right with
      | assignElement array' index' value' => exact Statement.assignElement_unique same
      | «return» value' => exact (Statement.return_apart (by decide) same.symm).elim
      | _ => simp [Statement.yield] at same
  | choice test body alternative =>
      cases right with
      | choice test' body' alternative' =>
          simp only [Statement.yield, List.cons_append, List.nil_append, List.append_assoc,
            List.cons.injEq, true_and] at same
          obtain ⟨rfl, behind⟩ := test.unique_upTo test' (by simp) same
          obtain ⟨rfl, beyond⟩ := Statements.unique body body' (List.tail_eq_of_cons_eq behind)
          obtain ⟨rfl, rfl⟩ := Alternative.unique alternative alternative' ends ends' beyond
          exact ⟨rfl, rfl⟩
      | «return» value' => exact (Statement.return_apart (by decide) same.symm).elim
      | _ => simp [Statement.yield] at same
  | loop test body =>
      cases right with
      | loop test' body' =>
          simp only [Statement.yield, List.cons_append, List.nil_append, List.append_assoc,
            List.cons.injEq, true_and] at same
          obtain ⟨rfl, behind⟩ := test.unique_upTo test' (by simp) same
          obtain ⟨rfl, rfl⟩ := Statements.unique body body' (List.tail_eq_of_cons_eq behind)
          exact ⟨rfl, rfl⟩
      | «return» value' => exact (Statement.return_apart (by decide) same.symm).elim
      | _ => simp [Statement.yield] at same
  | perform call =>
      cases right with
      | perform call' => exact Statement.perform_unique same
      | «return» value' => exact (Statement.return_apart (by decide) same.symm).elim
      | _ => simp [Statement.yield] at same
  | «return» value =>
      cases right with
      | «return» value' => exact Statement.return_unique same
      | _ => exact (Statement.return_apart (by decide) same).elim

/-- The yield of statements tells the statements, up to their closing brace. -/
theorem Statements.unique {rest rest' : List Terminal} (left right : Statements)
    (same : left.yield ++ .mark .rightBrace :: rest = right.yield ++ .mark .rightBrace :: rest') :
    left = right ∧ rest = rest' := by
  cases left with
  | nil =>
      cases right with
      | nil => exact ⟨rfl, List.tail_eq_of_cons_eq same⟩
      | cons first' others' =>
          obtain ⟨word, following, shape, _⟩ := first'.opens
          simp [Statements.yield, shape] at same
  | cons first others =>
      cases right with
      | nil =>
          obtain ⟨word, following, shape, _⟩ := first.opens
          simp [Statements.yield, shape] at same
      | cons first' others' =>
          simp only [Statements.yield, List.append_assoc] at same
          obtain ⟨rfl, behind⟩ := Statement.unique first first'
            (nextKind?_append _ _ ▸ others.endsChoice)
            (nextKind?_append _ _ ▸ others'.endsChoice) same
          obtain ⟨rfl, rfl⟩ := Statements.unique others others' behind
          exact ⟨rfl, rfl⟩

/-- The yield of an alternative tells whether there is one, and which. -/
theorem Alternative.unique {rest rest' : List Terminal} (left right : Alternative)
    (ends : EndsChoice (nextKind? rest)) (ends' : EndsChoice (nextKind? rest'))
    (same : left.yield ++ rest = right.yield ++ rest') : left = right ∧ rest = rest' := by
  cases left with
  | absent =>
      cases right with
      | absent => exact ⟨rfl, same⟩
      | present body' =>
          simp only [Alternative.yield, List.nil_append, List.cons_append] at same
          rw [same] at ends
          exact (ends rfl).elim
  | present body =>
      cases right with
      | absent =>
          simp only [Alternative.yield, List.nil_append, List.cons_append] at same
          rw [← same] at ends'
          exact (ends' rfl).elim
      | present body' =>
          simp only [Alternative.yield, List.cons_append, List.nil_append, List.append_assoc,
            List.cons.injEq, true_and] at same
          obtain ⟨rfl, rfl⟩ := Statements.unique body body' same
          exact ⟨rfl, rfl⟩

end

/-! ## Declarations -/

/-- Phrases in a row are unique if each of them is and what comes behind starts none of them. -/
theorem flatMap_unique {ι : Type} {yield : ι → List Terminal} (starts : Token.Kind → Bool)
    (opens : ∀ item, ∃ first others, yield item = first :: others ∧ starts first.kind)
    (each : ∀ left right rest rest', yield left ++ rest = yield right ++ rest' →
      left = right ∧ rest = rest')
    {left right : List ι} {rest rest' : List Terminal}
    (ends : (nextKind? rest).any starts = false) (ends' : (nextKind? rest').any starts = false)
    (same : left.flatMap yield ++ rest = right.flatMap yield ++ rest') :
    left = right ∧ rest = rest' := by
  have conflict {item : ι} {behind following : List Terminal}
      (ends : (nextKind? behind).any starts = false)
      (same : behind = yield item ++ following) : False := by
    obtain ⟨first, others, shape, starting⟩ := opens item
    rw [same, shape, List.cons_append, nextKind?_cons, Option.any_some, starting] at ends
    cases ends
  induction left generalizing right with
  | nil =>
      cases right with
      | nil => exact ⟨rfl, same⟩
      | cons item others =>
          rw [List.flatMap_cons, List.append_assoc] at same
          exact (conflict ends same).elim
  | cons item others inductionHypothesis =>
      cases right with
      | nil =>
          rw [List.flatMap_cons, List.append_assoc] at same
          exact (conflict ends' same.symm).elim
      | cons item' others' =>
          rw [List.flatMap_cons, List.flatMap_cons, List.append_assoc, List.append_assoc] at same
          obtain ⟨rfl, behind⟩ := each item item' _ _ same
          obtain ⟨rfl, rfl⟩ := inductionHypothesis behind
          exact ⟨rfl, rfl⟩

/-- The terminal of a type tells the type. -/
theorem TypeName.terminal_injective {left right : TypeName}
    (same : left.terminal = right.terminal) : left = right := by
  cases left <;> cases right <;> simp_all [TypeName.terminal]

/-- The yield of a group of variables tells the group. -/
theorem Variables.unique {rest rest' : List Terminal} (left right : Variables)
    (same : left.yield ++ rest = right.yield ++ rest') : left = right ∧ rest = rest' := by
  obtain ⟨type, first, others⟩ := left
  obtain ⟨type', first', others'⟩ := right
  simp only [Variables.yield, List.cons_append, List.nil_append, List.append_assoc,
    List.cons.injEq, Terminal.name.injEq] at same
  obtain ⟨rfl, behind⟩ := flatMap_unique (· == .punctuation .comma)
    (fun name => ⟨_, _, rfl, rfl⟩) (by simp) rfl rfl same.2.2
  exact ⟨by rw [TypeName.terminal_injective same.1, same.2.1], List.tail_eq_of_cons_eq behind⟩

/-- The yield of variables of a class tells the variables and their storage. -/
theorem ClassVariables.unique {rest rest' : List Terminal} (left right : ClassVariables)
    (same : left.yield ++ rest = right.yield ++ rest') : left = right ∧ rest = rest' := by
  obtain ⟨storage, group⟩ := left
  obtain ⟨storage', group'⟩ := right
  simp only [ClassVariables.yield, List.cons_append, List.cons.injEq,
    Terminal.keyword.injEq] at same
  obtain ⟨rfl, rfl⟩ := Variables.unique group group' same.2
  have storages : storage = storage' := by
    cases storage <;> cases storage' <;> first | rfl | cases same.1
  exact ⟨by rw [storages], rfl⟩

/-- The yield of parameters tells the parameters, up to their closing parenthesis. -/
theorem parametersYield_unique {rest rest' : List Terminal} (left right : List Parameter)
    (same : parametersYield left ++ .mark .rightParen :: rest =
      parametersYield right ++ .mark .rightParen :: rest') :
    left = right ∧ rest = rest' := by
  have conflict {type : TypeName} (same : Terminal.mark .rightParen = type.terminal) : False := by
    cases type <;> cases same
  cases left with
  | nil =>
      cases right with
      | nil => exact ⟨rfl, List.tail_eq_of_cons_eq same⟩
      | cons first' others' => exact (conflict (List.head_eq_of_cons_eq same)).elim
  | cons first others =>
      cases right with
      | nil => exact (conflict (List.head_eq_of_cons_eq same.symm)).elim
      | cons first' others' =>
          obtain ⟨type, name⟩ := first
          obtain ⟨type', name'⟩ := first'
          simp only [parametersYield, Parameter.yield, List.cons_append, List.nil_append,
            List.cons.injEq, Terminal.name.injEq] at same
          obtain ⟨rfl, behind⟩ := flatMap_unique
            (· == .punctuation .comma)
            (fun parameter => ⟨_, _, rfl, rfl⟩)
            (by
              rintro ⟨type, name⟩ ⟨type', name'⟩ rest rest' same
              simp only [List.cons_append, List.nil_append, List.cons.injEq, Terminal.name.injEq,
                true_and] at same
              exact ⟨by rw [TypeName.terminal_injective same.1, same.2.1], same.2.2⟩)
            rfl rfl same.2.2
          exact ⟨by rw [TypeName.terminal_injective same.1, same.2.1],
            List.tail_eq_of_cons_eq behind⟩

/-- The terminal of a return type tells the type, or that there is none. -/
theorem resultTerminal_injective {left right : Option TypeName}
    (same : resultTerminal left = resultTerminal right) : left = right := by
  cases left with
  | none =>
      cases right with
      | none => rfl
      | some type => cases type <;> cases same
  | some type =>
      cases right with
      | none => cases type <;> cases same
      | some type' => exact congrArg some (TypeName.terminal_injective same)

/-- The reserved word tells the kind of subroutine. -/
theorem SubroutineKind.word_injective {left right : SubroutineKind}
    (same : left.word = right.word) : left = right := by
  cases left <;> cases right <;> first | rfl | cases same

/-- The yield of a subroutine tells the subroutine. -/
theorem Subroutine.unique {rest rest' : List Terminal} (left right : Subroutine)
    (same : left.yield ++ rest = right.yield ++ rest') : left = right ∧ rest = rest' := by
  obtain ⟨kind, result, name, parameters, locals, body⟩ := left
  obtain ⟨kind', result', name', parameters', locals', body'⟩ := right
  simp only [Subroutine.yield, List.cons_append, List.nil_append, List.append_assoc,
    List.cons.injEq, Terminal.keyword.injEq, Terminal.name.injEq, true_and] at same
  obtain ⟨sameKind, sameResult, sameName, same⟩ := same
  obtain ⟨rfl, behind⟩ := parametersYield_unique parameters parameters' same
  obtain ⟨rfl, beyond⟩ := flatMap_unique (· == .keyword .var)
    (fun group => ⟨_, _, rfl, rfl⟩)
    (fun left right rest rest' same =>
      Variables.unique left right (List.tail_eq_of_cons_eq same))
    (nextKind?_append _ _ ▸ body.not_var) (nextKind?_append _ _ ▸ body'.not_var)
    (List.tail_eq_of_cons_eq behind)
  obtain ⟨rfl, rfl⟩ := Statements.unique body body' beyond
  exact ⟨by rw [SubroutineKind.word_injective sameKind, resultTerminal_injective sameResult,
    sameName], rfl⟩

/-- A class is decided by its terminals. -/
theorem ClassDeclaration.yield_injective {left right : ClassDeclaration}
    (same : left.yield = right.yield) : left = right := by
  obtain ⟨name, groups, subroutines⟩ := left
  obtain ⟨name', groups', subroutines'⟩ := right
  simp only [ClassDeclaration.yield, List.cons_append, List.nil_append, List.append_assoc,
    List.cons.injEq, Terminal.name.injEq, true_and] at same
  obtain ⟨rfl, behind⟩ := flatMap_unique Token.Kind.opensClassVariables ClassVariables.opens
    (fun left right rest rest' same => left.unique right same)
    (nextKind?_append _ _ ▸ not_opensClassVariables subroutines)
    (nextKind?_append _ _ ▸ not_opensClassVariables subroutines') same.2
  obtain ⟨rfl, _⟩ := flatMap_unique Token.Kind.opensSubroutine Subroutine.opens
    (fun left right rest rest' same => left.unique right same) rfl rfl behind
  rw [same.1]

end JackCompiler.Grammar
