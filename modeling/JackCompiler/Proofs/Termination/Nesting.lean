import JackCompiler.Proofs.Termination.Recursion

/-!
# Nesting

Terms nest in terms and blocks in blocks, and the recognisers count the levels that are left to
them. Each level reads a token, so levels do not run out where there are more of them than tokens
left, and any two such numbers of levels make no difference. There the recognisers do what their
bodies do when they call the recognisers themselves, with no levels counted.
-/

namespace JackCompiler

namespace Pass

variable {σ α : Type} {context context' : PassContext} {limit depth depth' : Nat}

/-- What takes a token for each level does the same at all depths that exceed the number of tokens
left. The induction is on the depth: what is nested has fewer tokens left. -/
theorem alike_nested {nested : Nat → Pass σ α} {least : α → Nat}
    (noLevel : ∀ limit, Alike context context' limit (nested 0) (nested 0) least)
    (level : ∀ {limit depth depth' : Nat}, PassContext.SameBelow (limit + 1) context context' →
      Alike context context' limit (nested depth) (nested depth') least →
      Alike context context' (limit + 1) (nested (depth + 1)) (nested (depth' + 1)) least)
    (bounds : PassContext.SameBelow limit context context')
    (enough : depth = depth' ∨ limit ≤ depth ∧ limit ≤ depth') :
    Alike context context' limit (nested depth) (nested depth') least := by
  induction depth generalizing depth' limit with
  | zero =>
      obtain rfl | ⟨none, _⟩ := enough
      · exact noLevel limit
      · obtain rfl := Nat.le_zero.1 none
        exact alike_zero
  | succ depth inductionHypothesis =>
      cases limit with
      | zero => exact alike_zero
      | succ limit =>
          obtain ⟨depth', rfl⟩ : ∃ fewer, depth' = fewer + 1 := ⟨depth' - 1, by omega⟩
          have inner := bounds.weaken (Nat.le_succ limit)
          exact level bounds (inductionHypothesis inner (by omega))

/-- Terms of two depths run alike where both depths suffice, by induction on the depth. -/
theorem alike_term (bounds : PassContext.SameBelow limit context context')
    (enough : depth = depth' ∨ limit ≤ depth ∧ limit ≤ depth') :
    Alike (σ := σ) context context' limit (term depth) (term depth') fun _ => 1 := by
  refine alike_nested (fun _ => alike_breakOff _) (fun {limit _ _} bounds terms => ?_) bounds enough
  have inner := bounds.weaken (Nat.le_succ limit)
  have expressions := alike_expressionOf inner terms
  rw [term_succ, term_succ, subroutineCall_eq, subroutineCall_eq]
  exact alike_termVia bounds.source terms expressions
    (alike_callVia bounds.source (alike_expressionList inner expressions))

/-- Expressions run alike. -/
theorem alike_expression (bounds : PassContext.SameBelow limit context context') :
    Alike (σ := σ) context context' limit expression expression fun _ => 1 :=
  alike_context (alike_expressionOf bounds (alike_term bounds bounds.bound))

/-- Calls run alike. -/
theorem alike_subroutineCall (bounds : PassContext.SameBelow limit context context') :
    Alike (σ := σ) context context' (limit + 1) (subroutineCall expression)
      (subroutineCall expression) fun _ => 1 :=
  alike_callVia bounds.source (alike_expressionList bounds (alike_expression bounds))

variable [LabelSource σ]

/-- Choices run alike if their blocks do where fewer tokens are left. -/
theorem alike_ifStatement (bounds : PassContext.SameBelow limit context context')
    {block block' : Pass σ Code}
    (blocks : Alike context context' limit block block' fun _ => 1) :
    Alike context context' (limit + 1) (ifStatement block) (ifStatement block') fun _ => 1 := by
  rw [ifStatement_eq, ifStatement_eq]
  exact alike_choiceVia (alike_expression bounds) blocks

/-- Loops run alike if their blocks do where fewer tokens are left. -/
theorem alike_whileStatement (bounds : PassContext.SameBelow limit context context')
    {block block' : Pass σ Code}
    (blocks : Alike context context' limit block block' fun _ => 1) :
    Alike context context' (limit + 1) (whileStatement block) (whileStatement block')
      fun _ => 1 := by
  rw [whileStatement_eq, whileStatement_eq]
  exact alike_loopVia (alike_expression bounds) blocks

/-- Statements of two depths run alike where both depths suffice, by induction on the depth. -/
theorem alike_statementsWithin (bounds : PassContext.SameBelow limit context context')
    (enough : depth = depth' ∨ limit ≤ depth ∧ limit ≤ depth') :
    Alike (σ := σ) context context' limit (statementsWithin depth) (statementsWithin depth')
      fun _ => 0 := by
  refine alike_nested (fun _ => alike_breakOff _) (fun {limit _ _} bounds below => ?_) bounds enough
  have inner := bounds.weaken (Nat.le_succ limit)
  have blocks := (alike_blockOf below).lower
  rw [statementsWithin, statementsWithin, statementsOf_eq, statementsOf_eq]
  exact alike_statementsVia bounds (alike_expression inner) (alike_subroutineCall inner).lower
    (alike_ifStatement inner blocks).lower (alike_whileStatement inner blocks).lower

/-- Statements run alike. -/
theorem alike_statements (bounds : PassContext.SameBelow limit context context') :
    Alike (σ := σ) context context' limit statements statements fun _ => 0 :=
  alike_context (alike_statementsWithin bounds bounds.bound)

end Pass

namespace Recognisers

open Pass

variable {σ : Type} [LabelSource σ]

/-- The recognisers with nothing around them that counts for the depth of terms or blocks. -/
def outermost : Recognisers σ
  | .statements => statements
  | .block => blockOf statements
  | .choice => ifStatement (blockOf statements)
  | .loop => whileStatement (blockOf statements)
  | .expression => expression
  | .term => do term (← context).bound
  | .call => subroutineCall expression
  | .argumentList => expressionList expression

variable {context context' : PassContext} {limit : Nat}

/-- All outermost recognisers run alike. -/
theorem alike_outermost (bounds : PassContext.SameBelow limit context context')
    (recogniser : Recogniser) :
    Alike (σ := σ) context context' limit (outermost recogniser) (outermost recogniser)
      fun _ => recogniser.least := by
  have blocks : Alike (σ := σ) context context' limit (blockOf statements) (blockOf statements)
      fun _ => 1 :=
    (alike_blockOf (alike_statements bounds)).lower
  cases recogniser with
  | statements => exact alike_statements bounds
  | block => exact blocks
  | choice => exact (alike_ifStatement bounds blocks).lower
  | loop => exact (alike_whileStatement bounds blocks).lower
  | expression => exact alike_expression bounds
  | term => exact alike_context (alike_term bounds bounds.bound)
  | call => exact (alike_subroutineCall bounds).lower
  | argumentList => exact alike_expressionList bounds (alike_expression bounds)

/-- Where the bound exceeds the number of tokens left, the recognisers do what their bodies do when
they call the recognisers themselves, however deep these are nested. -/
theorem alike_body_outermost (recogniser : Recogniser) :
    Alike (σ := σ) context context context.bound (outermost.body recogniser)
      (outermost recogniser) fun _ => recogniser.least := by
  have bounds {limit : Nat} : PassContext.SameBelow limit context context := .refl context
  cases recogniser with
  | block => exact alike_outermost bounds .block
  | choice => exact alike_outermost bounds .choice
  | loop => exact alike_outermost bounds .loop
  | call => exact alike_outermost bounds .call
  | argumentList => exact alike_outermost bounds .argumentList
  | expression =>
      have terms : Alike (σ := σ) context context context.bound (outermost .term)
          (term context.bound) fun _ => 1 := alike_term bounds (.inl rfl)
      exact alike_expressionOf bounds terms
  | term =>
      show Alike context context _ _ (term context.bound) _
      cases deep : context.bound with
      | zero => exact alike_zero
      | succ depth =>
          have terms : Alike (σ := σ) context context depth (outermost .term) (term depth)
              fun _ => 1 := alike_term bounds (.inr (by omega))
          have expressions : Alike (σ := σ) context context depth expression
              (expressionOf (term depth)) fun _ => 1 := alike_expressionOf bounds terms
          exact alike_termVia rfl terms expressions
            (alike_callVia rfl (alike_expressionList bounds expressions))
  | statements =>
      show Alike context context _ _ (statementsWithin context.bound) _
      cases deep : context.bound with
      | zero => exact alike_zero
      | succ depth =>
          have inner : Alike (σ := σ) context context depth statements (statementsWithin depth)
              fun _ => 0 := alike_statementsWithin bounds (.inr (by omega))
          have blocks := (alike_blockOf inner).lower
          exact alike_statementsVia bounds (alike_expression bounds)
            (alike_subroutineCall bounds).lower (alike_ifStatement bounds blocks).lower
            (alike_whileStatement bounds blocks).lower

end Recognisers

end JackCompiler
