import JackCompiler.Proofs.Recognition.Steps

/-!
# Guards that are never met

Three steps of a declaration are guarded against a count that leaves its 16-bit word, although the
symbol table has already bounded that count: the locals of one line are counted after each of them
was defined, the locals of all lines are added up after all of them were, and the object of a method
is the first definition in an empty table. `Pass.Guards` says what each of them does when it is met;
whatever it is, the recognisers run in the same way, from every state and over every stream.
-/

namespace JackCompiler

namespace Pass

variable {σ α β : Type}

/-- What a pass does when a guard is met. -/
structure Guards (σ : Type) where
  /-- The object of a method finds no room in the table. -/
  receiver : Pass σ Unit
  /-- The number of locals in one declaration leaves its word. -/
  count : Pass σ UInt16
  /-- The number of locals in all declarations leaves its word. -/
  total : Pass σ UInt16

namespace Guards

/-- What the guards of the recognisers do. -/
def standard : Guards σ where
  receiver := tooMany .parameters
  count := breakOff .countOverflow
  total := tooMany .localVariables

/-- `sum` of the locals, with the guard of their total. -/
def addLocals (guards : Guards σ) (left right : UInt16) : Pass σ UInt16 :=
  if left.toNat + right.toNat < 65536 then pure (left + right) else guards.total

/-- `defineParameter` for the object of a method, with its guard. -/
def defineReceiver (guards : Guards σ) (type : String) : Pass σ Unit := do
  let current ← state
  match current.scope.ofSubroutine.define? "this" type .argument with
  | some (_, ofSubroutine) => setState { current with scope := { current.scope with ofSubroutine } }
  | none => guards.receiver

/-- One name of `localVariables`, with the guard of their count. -/
def localVariable (guards : Guards σ) (type : String) (count : UInt16) : Pass σ UInt16 := do
  defineInSubroutine .localVariables (← name) type .local
  if count = 65535 then guards.count else pure (count + 1)

/-- `localVariables` with the guard of their count. -/
def localVariables (guards : Guards σ) : Pass σ UInt16 := do
  let _ ← expect (.keyword .var)
  let type ← typeName
  let count ← separated (guards.localVariable type) (0 : UInt16)
  expectMark .semicolon
  pure count

/-- `allLocalVariables` with the guards of counts. -/
def allLocalVariables (guards : Guards σ) : Pass σ UInt16 :=
  whileNext (· == .keyword .var)
    (fun count => do guards.addLocals count (← guards.localVariables)) (0 : UInt16)

variable [LabelSource σ]

/-- `subroutineBody` with the guards of counts. -/
def subroutineBody (guards : Guards σ) : Pass σ (UInt16 × Code) := do
  expectMark .leftBrace
  let locals ← guards.allLocalVariables
  let body ← statements
  expectMark .rightBrace
  pure (locals, body)

/-- `subroutine` with all guards. -/
def subroutine (guards : Guards σ) : Pass σ Code := do
  let keyword ← expectAny Token.Kind.subroutineKinds
  openSubroutine
  let _ ← expectAny Token.Kind.returnTypes
  let ownName ← name
  let owner ← className
  if keyword.kind = .keyword .method then
    guards.defineReceiver owner
  parameters
  let (locals, body) ← guards.subroutineBody
  let header := Code.ofList [.function (owner ++ "." ++ ownName) locals]
  pure (header ++ prologue keyword.kind (← state).scope.fieldCount ++ body)

/-- `classDeclaration` with all guards. -/
def classDeclaration (guards : Guards σ) : Pass σ Code := do
  let _ ← expect (.keyword .class)
  setClassName (← name)
  expectMark .leftBrace
  whileNext Token.Kind.opensClassVariables (fun () => classVariables) ()
  let code ← whileNext Token.Kind.opensSubroutine
    (fun code => do pure (code ++ (← guards.subroutine))) .empty
  expectMark .rightBrace
  match ← peek? with
  | some token => reject token.span (.grammatical (.trailingInput token.kind))
  | none => pure code

/-- With the guards of the pass, the guarded recogniser is that of the pass. -/
theorem classDeclaration_standard :
    (standard.classDeclaration : Pass σ Code) = Pass.classDeclaration := rfl

end Guards

/-! ## Parts that run alike -/

/-- Two parts of a pass run alike from every scope that satisfies a condition, and lead to a value
and a scope that satisfy another. -/
def Agree (given : Scope → Prop) (part part' : Pass σ α) (ensured : α → Scope → Prop) : Prop :=
  ∀ context before, given before.scope →
    part.run context before = part'.run context before ∧
      ∀ value after, part.run context before = .done value after → ensured value after.scope

/-- A part of a pass that leaves the scope as it is. -/
def KeepsScope (part : Pass σ α) : Prop :=
  ∀ context before value after, part.run context before = .done value after →
    after.scope = before.scope

section Agreement

variable {given : Scope → Prop} {between : α → Scope → Prop} {ensured : β → Scope → Prop}
  {part part' : Pass σ α} {next next' : α → Pass σ β}

/-- A part agrees with itself. -/
theorem agree_refl (part : Pass σ α) : Agree given part part fun _ _ => True :=
  fun _ _ _ => ⟨rfl, fun _ _ _ => trivial⟩

/-- A part that keeps the scope keeps what is known of it. -/
theorem KeepsScope.agree (keeps : KeepsScope part) :
    Agree given part part fun _ => given := by
  intro context before holds
  refine ⟨rfl, fun value after finished => ?_⟩
  rw [keeps _ _ _ _ finished]
  exact holds

/-- A value alone agrees with itself where what it ensures is known. -/
theorem agree_pure {value : β} (leads : ∀ scope, given scope → ensured value scope) :
    Agree given (pure value : Pass σ β) (pure value) ensured := by
  intro context before holds
  refine ⟨rfl, fun result after finished => ?_⟩
  obtain ⟨rfl, rfl⟩ := run_pure_eq_done_iff.1 finished
  exact leads _ holds

/-- Parts agree one after another. -/
theorem Agree.bind (first : Agree given part part' between)
    (others : ∀ value, Agree (between value) (next value) (next' value) ensured) :
    Agree given (part >>= next) (part' >>= next') ensured := by
  intro context before holds
  obtain ⟨same, leads⟩ := first context before holds
  rw [run_bind, run_bind, ← same]
  cases outcome : part.run context before with
  | done value middle => exact others value context middle (leads value middle outcome)
  | halted reason state => exact ⟨rfl, fun _ _ => nofun⟩

/-- What is known in front of a part that keeps the scope is known behind it. -/
theorem KeepsScope.agree_bind (keeps : KeepsScope part)
    (others : ∀ value, Agree given (next value) (next' value) ensured) :
    Agree given (part >>= next) (part >>= next') ensured :=
  keeps.agree.bind others

/-- Parts that run alike from every scope are the same. -/
theorem Agree.eq (agree : Agree (fun _ => True) part part' between) : part = part' := by
  ext context before
  exact (agree context before trivial).1

/-- A loop goes through an invariant of what it yields and of the scope. -/
theorem agree_iterate {step step' : α → Pass σ (α ⊕ β)} (kept : α → Scope → Prop)
    (each : ∀ value, Agree (kept value) (step value) (step' value) fun outcome scope =>
      outcome.elim (kept · scope) (ensured · scope)) (value : α) :
    Agree (kept value) (iterate step value) (iterate step' value) ensured := by
  have loop : ∀ rounds value, Agree (kept value) (iterateFor step rounds value)
      (iterateFor step' rounds value) ensured := by
    intro rounds
    induction rounds with
    | zero => exact fun value context before _ => ⟨rfl, fun _ _ => nofun⟩
    | succ rounds inductionHypothesis =>
        intro value
        refine (each value).bind fun outcome => ?_
        cases outcome with
        | inl next => exact inductionHypothesis next
        | inr result => exact agree_pure fun _ holds => holds
  exact fun context => loop context.bound value context

end Agreement

/-- Reading a token keeps the scope. -/
theorem keepsScope_advance : KeepsScope (advance : Pass σ Token) := by
  intro context before token after finished
  rw [(advance_eq_done_iff.1 finished).2]

/-- Expecting a kind keeps the scope. -/
theorem keepsScope_expect (kind : Token.Kind) : KeepsScope (expect kind : Pass σ Token) :=
  fun _ _ _ _ finished => keepsScope_advance _ _ _ _ (expect_eq_done_iff.1 finished).1

/-- Expecting one of some kinds keeps the scope. -/
theorem keepsScope_expectAny (kinds : List Token.Kind) :
    KeepsScope (expectAny kinds : Pass σ Token) :=
  fun _ _ _ _ finished => keepsScope_advance _ _ _ _ (expectAny_eq_done_iff.1 finished).1

/-- Expecting a mark keeps the scope. -/
theorem keepsScope_expectMark (mark : Punctuation) :
    KeepsScope (expectMark mark : Pass σ Unit) := by
  intro context before value after finished
  obtain ⟨token, middle, read, rest⟩ := run_bind_eq_done_iff.1 finished
  obtain ⟨_, rfl⟩ := run_pure_eq_done_iff.1 rest
  exact keepsScope_expect _ _ _ _ _ read

/-- Reading a name keeps the scope. -/
theorem keepsScope_name : KeepsScope (name : Pass σ String) := by
  intro context before value after finished
  obtain ⟨token, middle, read, rest⟩ := run_bind_eq_done_iff.1 finished
  obtain ⟨_, rfl⟩ := textOf_eq_done_iff.1 rest
  exact keepsScope_expect _ _ _ _ _ read

/-- Reading the name of a type keeps the scope. -/
theorem keepsScope_typeName : KeepsScope (typeName : Pass σ String) := by
  intro context before value after finished
  obtain ⟨token, middle, read, rest⟩ := run_bind_eq_done_iff.1 finished
  obtain ⟨_, rfl⟩ := textOf_eq_done_iff.1 rest
  exact keepsScope_expectAny _ _ _ _ _ read

/-- Taking a kind keeps the scope. -/
theorem keepsScope_take (kind : Token.Kind) : KeepsScope (take kind : Pass σ Bool) := by
  intro context before answer after finished
  rcases take_eq_done_iff.1 finished with ⟨_, token, _, read⟩ | ⟨_, _, rfl⟩
  · exact keepsScope_advance _ _ _ _ read
  · rfl

/-- Separated items agree if they do one by one. -/
theorem agree_separated {item item' : α → Pass σ α} {kept : α → Scope → Prop}
    (each : ∀ value, Agree (kept value) (item value) (item' value) kept) (value : α) :
    Agree (kept value) (separated item value) (separated item' value) kept := by
  refine agree_iterate kept (fun value => (each value).bind fun value => ?_) value
  refine (keepsScope_take _).agree_bind fun answer => ?_
  cases answer with
  | true => exact agree_pure fun _ holds => holds
  | false => exact agree_pure fun _ holds => holds

/-- Loops agree if their parts do. -/
theorem agree_whileNext {condition : Token.Kind → Bool} {part part' : α → Pass σ α}
    {kept : α → Scope → Prop}
    (each : ∀ value, Agree (kept value) (part value) (part' value) kept) (value : α) :
    Agree (kept value) (whileNext condition part value) (whileNext condition part' value)
      kept := by
  refine agree_iterate kept (fun value => ?_) value
  have keeps : KeepsScope (nextSatisfies condition : Pass σ Bool) := by
    intro context before answer after finished
    rw [run_nextSatisfies] at finished
    cases finished
    rfl
  refine keeps.agree_bind fun answer => ?_
  cases answer with
  | true => exact (each value).bind fun next => agree_pure fun _ holds => holds
  | false => exact agree_pure fun _ holds => holds

end Pass

/-! ## What the table has counted -/

namespace Scope

/-- How many locals the table of the subroutine has counted. -/
def locals (scope : Scope) : Nat := (scope.ofSubroutine.count .local).toNat

end Scope

namespace Pass

/-- A local that is defined found room in the table and takes it. -/
theorem locals_of_define {σ : Type} {context : PassContext} {before after : PassState σ}
    {items : Countable} {name type : String}
    (finished : (defineInSubroutine items name type .local).run context before = .done () after) :
    before.scope.locals < 65535 ∧ after.scope.locals = before.scope.locals + 1 := by
  unfold defineInSubroutine at finished
  rw [run_bind_of_done (run_state context before)] at finished
  cases defined : before.scope.ofSubroutine.define? name type .local with
  | none =>
      rw [defined] at finished
      cases finished
  | some result =>
      rw [defined] at finished
      cases finished
      obtain ⟨room, counts⟩ := SymbolTable.toNat_count_of_define? defined
      exact ⟨room, counts .local⟩

namespace Guards

variable {σ : Type} (guards : Guards σ)

/-- One more local is counted by the table, which has room for at most 65535. -/
theorem agree_localVariable (earlier : Nat) (type : String) (count : UInt16) :
    Agree (fun scope => earlier + count.toNat ≤ scope.locals)
      (guards.localVariable type count) (standard.localVariable type count)
      fun count scope => earlier + count.toNat ≤ scope.locals := by
  refine keepsScope_name.agree_bind fun name => ?_
  have defines : Agree (fun scope => earlier + count.toNat ≤ scope.locals)
      (defineInSubroutine .localVariables name type .local : Pass σ Unit)
      (defineInSubroutine .localVariables name type .local)
      fun _ scope => count.toNat < 65535 ∧ earlier + (count.toNat + 1) ≤ scope.locals := by
    intro context before bounded
    refine ⟨rfl, fun _ after finished => ?_⟩
    obtain ⟨room, counted⟩ := locals_of_define finished
    omega
  refine defines.bind fun _ context before bounded => ?_
  have below : count ≠ 65535 := by
    rintro rfl
    exact absurd bounded.1 (by decide)
  have number : (count + 1).toNat = count.toNat + 1 := by
    rw [UInt16.toNat_add]
    exact Nat.mod_eq_of_lt (Nat.succ_lt_succ bounded.1)
  rw [if_neg below, if_neg below]
  refine ⟨rfl, fun value after finished => ?_⟩
  obtain ⟨rfl, rfl⟩ := run_pure_eq_done_iff.1 finished
  rw [number]
  exact bounded.2

/-- The locals of one declaration come on top of those before. -/
theorem agree_localVariables (earlier : Nat) :
    Agree (fun scope => earlier ≤ scope.locals)
      guards.localVariables standard.localVariables
      fun count scope => earlier + count.toNat ≤ scope.locals := by
  refine (keepsScope_expect _).agree_bind fun _ => keepsScope_typeName.agree_bind fun type => ?_
  refine (agree_separated (guards.agree_localVariable earlier type) 0).bind fun count => ?_
  exact (keepsScope_expectMark _).agree_bind fun _ => agree_pure fun _ holds => holds

/-- All locals that are counted are in the table. -/
theorem agree_allLocalVariables :
    Agree (fun _ => True) guards.allLocalVariables standard.allLocalVariables
      fun count scope => count.toNat ≤ scope.locals := by
  have each (count : UInt16) : Agree (fun scope => count.toNat ≤ scope.locals)
      (do guards.addLocals count (← guards.localVariables))
      (do standard.addLocals count (← standard.localVariables))
      fun count scope => count.toNat ≤ scope.locals := by
    refine (guards.agree_localVariables count.toNat).bind fun more context before bounded => ?_
    have fits : count.toNat + more.toNat < 65536 :=
      Nat.lt_of_le_of_lt bounded (before.scope.ofSubroutine.count .local).toNat_lt
    rw [addLocals, addLocals, if_pos fits, if_pos fits]
    refine ⟨rfl, fun value after finished => ?_⟩
    obtain ⟨rfl, rfl⟩ := run_pure_eq_done_iff.1 finished
    rw [UInt16.toNat_add, Nat.mod_eq_of_lt fits]
    exact bounded
  exact fun context before _ => agree_whileNext each 0 context before (Nat.zero_le _)

/-- An empty table has room for the object of a method. -/
theorem agree_defineReceiver (type : String) :
    Agree (fun scope => scope.ofSubroutine = .empty) (guards.defineReceiver type)
      (standard.defineReceiver type) fun _ _ => True := by
  intro context before isEmpty
  refine ⟨?_, fun _ _ _ => trivial⟩
  unfold defineReceiver
  rw [run_bind_of_done (run_state context before), run_bind_of_done (run_state context before)]
  cases defined : before.scope.ofSubroutine.define? "this" type .argument with
  | some result => rfl
  | none =>
      have full := SymbolTable.define?_eq_none_iff.1 defined
      rw [isEmpty, SymbolTable.count_empty] at full
      exact absurd full (by decide)

variable [LabelSource σ]

/-- A subroutine does not meet its guards. -/
theorem subroutine_eq : guards.subroutine = standard.subroutine := by
  have body : guards.subroutineBody = standard.subroutineBody := by
    unfold subroutineBody
    rw [guards.agree_allLocalVariables.eq]
  suffices agree : Agree (fun _ => True) guards.subroutine standard.subroutine fun _ _ => True from
    agree.eq
  refine (keepsScope_expectAny _).agree_bind fun keyword => ?_
  have opens : Agree (fun _ => True) (openSubroutine : Pass σ Unit) openSubroutine
      fun _ scope => scope.ofSubroutine = .empty := by
    intro context before _
    refine ⟨rfl, fun value after finished => ?_⟩
    cases finished
    rfl
  refine opens.bind fun _ => (keepsScope_expectAny _).agree_bind fun _ => ?_
  refine keepsScope_name.agree_bind fun ownName => ?_
  have keeps : KeepsScope (className : Pass σ String) := by
    intro context before value after finished
    cases finished
    rfl
  refine keeps.agree_bind fun owner => ?_
  rw [body]
  by_cases isMethod : keyword.kind = .keyword .method
  · simp only [if_pos isMethod]
    exact (guards.agree_defineReceiver owner).bind fun _ => agree_refl _
  · simp only [if_neg isMethod]
    exact agree_refl _

/-- A class never meets the guards of its counts. -/
theorem classDeclaration_eq : guards.classDeclaration = Pass.classDeclaration := by
  rw [← classDeclaration_standard]
  unfold classDeclaration
  rw [guards.subroutine_eq]

end Guards

end Pass

end JackCompiler
