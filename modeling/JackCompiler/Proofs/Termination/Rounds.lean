import JackCompiler.Compilation.Class
import JackCompiler.Proofs.Recognition.StatementSound
import JackCompiler.Proofs.Termination.Nesting

/-!
# Rounds of loops

Nine loops stand in the recognisers. Every round that is followed by another has read a token: a
comma behind an item, the keyword of a declaration, a subroutine or a statement, an operator. With
that, a class is recognised in the same way whatever the bound is, as long as it exceeds the number
of tokens.
-/

namespace JackCompiler

namespace Pass

/-! ## Classes run alike -/

section Classes

variable {σ : Type} {context context' : PassContext} {limit : Nat}

/-- A name of a variable of the class. -/
def classVariableItem (type : String) (storage : ClassStorage) (_ : Unit) : Pass σ Unit := do
  defineInClass (← name) type storage

/-- A parameter. -/
def parameterItem (_ : Unit) : Pass σ Unit := do
  let type ← typeName
  defineParameter (← name) type

/-- A name of a local variable, which is counted. -/
def localItem (type : String) (count : UInt16) : Pass σ UInt16 := do
  defineInSubroutine .localVariables (← name) type .local
  if count = 65535 then breakOff .countOverflow else pure (count + 1)

/-- A declaration of local variables, which are added up. -/
def localsItem (count : UInt16) : Pass σ UInt16 := do
  sum .localVariables count (← localVariables)

/-- A subroutine, behind the code of those before. -/
def subroutineItem [LabelSource σ] (code : Code) : Pass σ Code := do
  pure (code ++ (← subroutine))

theorem alike_classVariableItem (source : context.source = context'.source) (type : String)
    (storage : ClassStorage) (value : Unit) :
    Alike (σ := σ) context context' limit (classVariableItem type storage value)
      (classVariableItem type storage value) fun _ => 1 :=
  (alike_name source).bind fun name => alike_defineInClass name type storage

theorem alike_parameterItem (source : context.source = context'.source) (value : Unit) :
    Alike (σ := σ) context context' limit (parameterItem value) (parameterItem value)
      fun _ => 1 := by
  refine (alike_typeName source).bind fun type => (alike_name source).bind fun name => ?_
  exact alike_defineInSubroutine _ name type _

theorem alike_localItem (source : context.source = context'.source) (type : String)
    (count : UInt16) :
    Alike (σ := σ) context context' limit (localItem type count) (localItem type count)
      fun _ => 1 := by
  refine (alike_name source).bind fun name => (alike_defineInSubroutine _ name type _).bind ?_
  intro _
  split
  · exact alike_breakOff _
  · exact alike_pure rfl

/-- Variables of a class run alike, and a storage is read. -/
theorem alike_classVariables (bounds : PassContext.SameBelow limit context context') :
    Alike (σ := σ) context context' limit classVariables classVariables fun _ => 1 := by
  refine (alike_expectAny _).bind fun keyword => (alike_typeName bounds.source).bind fun type => ?_
  refine (alike_separated bounds (alike_classVariableItem bounds.source type _) ()).bind ?_
  exact fun _ => (alike_expectMark _).uncounted

/-- Parameters run alike, and a parenthesis is read. -/
theorem alike_parameters (bounds : PassContext.SameBelow limit context context') :
    Alike (σ := σ) context context' limit parameters parameters fun _ => 1 := by
  refine (alike_expectMark _).bind fun _ => (alike_take _).bind ?_
  rintro (_ | _)
  · refine (alike_separated bounds (alike_parameterItem bounds.source) ()).bind fun _ => ?_
    exact (alike_expectMark _).uncounted
  · exact alike_pure rfl

/-- Local variables of one type run alike, and a keyword is read. -/
theorem alike_localVariables (bounds : PassContext.SameBelow limit context context') :
    Alike (σ := σ) context context' limit localVariables localVariables fun _ => 1 := by
  refine (alike_expect _).bind fun _ => (alike_typeName bounds.source).bind fun type => ?_
  refine (alike_separated bounds (alike_localItem bounds.source type) 0).bind fun count => ?_
  exact (alike_expectMark _).bind fun _ => alike_pure rfl

theorem alike_localsItem (bounds : PassContext.SameBelow limit context context')
    (count : UInt16) :
    Alike (σ := σ) context context' limit (localsItem count) (localsItem count) fun _ => 1 :=
  (alike_localVariables bounds).bind fun more => alike_sum _ count more

/-- All local variables run alike; there may be none. -/
theorem alike_allLocalVariables (bounds : PassContext.SameBelow limit context context') :
    Alike (σ := σ) context context' limit allLocalVariables allLocalVariables fun _ => 0 :=
  alike_whileNext bounds (alike_localsItem bounds) 0

variable [LabelSource σ]

/-- The body of a subroutine runs alike, and a brace is read. -/
theorem alike_subroutineBody (bounds : PassContext.SameBelow limit context context') :
    Alike (σ := σ) context context' limit subroutineBody subroutineBody fun _ => 1 := by
  refine (alike_expectMark _).bind fun _ => (alike_allLocalVariables bounds).bind fun locals => ?_
  refine (alike_statements bounds).bind fun body => ?_
  exact (alike_expectMark _).bind fun _ => alike_pure rfl

/-- Subroutines run alike, and a keyword is read. -/
theorem alike_subroutine (bounds : PassContext.SameBelow limit context context') :
    Alike (σ := σ) context context' limit subroutine subroutine fun _ => 1 := by
  refine (alike_expectAny _).bind fun keyword => alike_openSubroutine.bind fun _ => ?_
  refine (alike_expectAny _).bind fun _ => (alike_name bounds.source).bind fun ownName => ?_
  refine alike_className.bind fun owner => ?_
  have finish (header body : Code) :
      Alike (σ := σ) context context' limit
        (do pure (header ++ prologue keyword.kind (← state).scope.fieldCount ++ body))
        (do pure (header ++ prologue keyword.kind (← state).scope.fieldCount ++ body))
        fun _ => 0 :=
    alike_state fun _ _ => ⟨rfl, fun _ _ finished => by cases finished; exact Nat.le_refl _⟩
  split
  · refine (alike_defineInSubroutine _ _ _ _).bind fun _ => (alike_parameters bounds).bind ?_
    exact fun _ => (alike_subroutineBody bounds).bind fun _ => finish _ _
  · refine (alike_parameters bounds).bind fun _ => ?_
    exact (alike_subroutineBody bounds).bind fun _ => finish _ _

theorem alike_subroutineItem (bounds : PassContext.SameBelow limit context context')
    (code : Code) :
    Alike (σ := σ) context context' limit (subroutineItem code) (subroutineItem code)
      fun _ => 1 :=
  (alike_subroutine bounds).bind fun _ => alike_pure rfl

/-- Classes run alike where the bounds agree. -/
theorem alike_classDeclaration (bounds : PassContext.SameBelow limit context context') :
    Alike (σ := σ) context context' limit classDeclaration classDeclaration fun _ => 0 := by
  refine (alike_expect _).bind fun _ => (alike_name bounds.source).bind fun name => ?_
  refine (alike_setClassName name).bind fun _ => (alike_expectMark _).bind fun _ => ?_
  refine (alike_whileNext bounds (fun _ => alike_classVariables bounds) ()).bind fun _ => ?_
  refine (alike_whileNext bounds (alike_subroutineItem bounds) _).bind fun code => ?_
  refine (alike_expectMark _).bind fun _ => alike_peek?.bind ?_
  rintro (_ | token)
  · exact alike_pure rfl
  · exact alike_reject _ _

end Classes

end Pass

/-! ## Rounds -/

/-- The loops in the recognisers. Those that nest terms or blocks do so to some depth. -/
inductive Loop
  | classVariables
  | classVariableNames (type : String) (storage : ClassStorage)
  | subroutines
  | parameters
  | localVariables
  | localVariableNames (type : String)
  | statements (depth : Nat)
  | operands (depth : Nat)
  | arguments (depth : Nat)

namespace Loop

open Pass

/-- What a loop carries from round to round. -/
def Carried : Loop → Type
  | classVariables | classVariableNames _ _ | parameters => Unit
  | localVariables | localVariableNames _ => UInt16
  | subroutines | statements _ | operands _ => Code
  | arguments _ => Code × UInt16

variable {σ : Type} [LabelSource σ]

/-- A round of a loop, which says whether another one follows. -/
def round : (loop : Loop) → loop.Carried → Pass σ (loop.Carried ⊕ loop.Carried)
  | classVariables => whileStep Token.Kind.opensClassVariables fun () => Pass.classVariables
  | classVariableNames type storage => separatedStep (classVariableItem type storage)
  | subroutines => whileStep Token.Kind.opensSubroutine subroutineItem
  | parameters => separatedStep parameterItem
  | localVariables => whileStep (· == .keyword .var) localsItem
  | localVariableNames type => separatedStep (localItem type)
  | statements depth => statementStep (blockOf (statementsWithin depth))
  | operands depth => operandStep (term depth)
  | arguments depth => separatedStep (argumentItem (expressionOf (term depth)))

variable (σ) in
/-- The recognisers are made of these loops. -/
structure Stand : Prop where
  classVariables : (classDeclaration : Pass σ Code) = (do
    let _ ← expect (.keyword .class)
    setClassName (← name)
    expectMark .leftBrace
    iterate classVariables.round ()
    let code ← iterate subroutines.round .empty
    expectMark .rightBrace
    match ← peek? with
    | some token => reject token.span (.grammatical (.trailingInput token.kind))
    | none => pure code)
  classVariableNames : (Pass.classVariables : Pass σ Unit) = (do
    let keyword ← expectAny Token.Kind.classVariableKinds
    let storage : ClassStorage :=
      if keyword.kind = .keyword .static then .static else .field
    let type ← typeName
    iterate (classVariableNames type storage).round ()
    expectMark .semicolon)
  parameters : (Pass.parameters : Pass σ Unit) = (do
    expectMark .leftParen
    if ← take (.punctuation .rightParen) then
      pure ()
    else
      iterate parameters.round ()
      expectMark .rightParen)
  localVariables : (allLocalVariables : Pass σ UInt16) = iterate localVariables.round (0 : UInt16)
  localVariableNames : (Pass.localVariables : Pass σ UInt16) = (do
    let _ ← expect (.keyword .var)
    let type ← typeName
    let count ← iterate (localVariableNames type).round (0 : UInt16)
    expectMark .semicolon
    pure count)
  statements : ∀ depth, (statementsWithin (depth + 1) : Pass σ Code) =
    iterate (statements depth).round .empty
  operands : ∀ depth, (expressionOf (term depth) : Pass σ Code) =
    term depth >>= iterate (operands depth).round
  arguments : ∀ depth,
    (expressionList (expressionOf (term depth)) : Pass σ (Code × UInt16)) = (do
      if ← nextIs (.punctuation .rightParen) then
        pure (.empty, 0)
      else
        iterate (arguments depth).round (.empty, 0))

variable (σ) in
/-- All nine loops stand in the recognisers. -/
theorem stand : Stand σ :=
  ⟨rfl, rfl, rfl, rfl, rfl, fun _ => rfl, fun _ => rfl, fun _ => rfl⟩

/-! ### Rounds that go on -/

variable {context : PassContext} {limit : Nat}

/-- A round that is followed by another reads a token. -/
theorem alike_round (loop : Loop) (value : loop.Carried) :
    Alike (σ := σ) context context limit (loop.round value) (loop.round value)
      (Sum.elim (fun _ => 1) fun _ => 0) := by
  have bounds : PassContext.SameBelow limit context context := .refl context
  have items {α : Type} {item : α → Pass σ α}
      (each : ∀ value, Alike context context limit (item value) (item value) fun _ => 1)
      (value : α) : Alike context context limit (separatedStep item value)
        (separatedStep item value) (Sum.elim (fun _ => 1) fun _ => 0) :=
    alike_separatedStep (fun value => (each value).uncounted) value
  have terms (depth : Nat) : Alike (σ := σ) context context limit (term depth) (term depth)
      fun _ => 1 := alike_term bounds (.inl rfl)
  cases loop with
  | classVariables => exact alike_whileStep (fun _ => alike_classVariables bounds) value
  | classVariableNames type storage => exact items (alike_classVariableItem rfl type storage) value
  | subroutines => exact alike_whileStep (alike_subroutineItem bounds) value
  | parameters => exact items (alike_parameterItem rfl) value
  | localVariables => exact alike_whileStep (alike_localsItem bounds) value
  | localVariableNames type => exact items (alike_localItem rfl type) value
  | statements depth =>
      have blocks : Alike (σ := σ) context context limit (blockOf (statementsWithin depth))
          (blockOf (statementsWithin depth)) fun _ => 1 :=
        (alike_blockOf (alike_statementsWithin bounds (.inl rfl))).lower
      exact (alike_statementVia rfl (alike_expression bounds) (alike_subroutineCall bounds).lower
        (alike_ifStatement bounds blocks).lower (alike_whileStatement bounds blocks).lower
        value).lower
  | operands depth => exact alike_operandStep (terms depth) value
  | arguments depth =>
      exact items (alike_argumentItem (alike_expressionOf bounds (terms depth))) value

/-- Every round that is followed by another leaves fewer tokens. -/
theorem left_lt_of_round {loop : Loop} {value next : loop.Carried} {before after : PassState σ}
    (goesOn : (loop.round value).run context before = .done (.inl next) after) :
    after.left < before.left :=
  (alike_round loop value (Nat.lt_succ_self before.left)).2 goesOn

end Loop

end JackCompiler
