import JackCompiler.Compilation.Class
import JackCompiler.Proofs.Recognition.StatementSound

/-!
# Recognised classes have trees

The declarations of a class fill the two symbol tables as they are read, so the environment of a
body is what the tables hold by then. `PassState.Carries` keeps track of both tables as plain
sequences of declarations; a class that is done has carried exactly the declarations of its tree.
-/

namespace JackCompiler

open Grammar

namespace PassState

variable {σ : Type} {source : String} {labels : σ} {className : String}
  {ofClass : List (Declaration ClassStorage)} {ofSubroutine : List (Declaration SubroutineStorage)}
  {before after : PassState σ}

/-- What a pass carries along besides the stream, with its tables filled by the given declarations
in their order. -/
structure Carries (labels : σ) (className : String) (ofClass : List (Declaration ClassStorage))
    (ofSubroutine : List (Declaration SubroutineStorage)) (state : PassState σ) : Prop where
  labels : state.labels = labels
  className : state.className = className
  ofClass : state.scope.ofClass.Records ofClass.reverse
  ofSubroutine : state.scope.ofSubroutine.Records ofSubroutine.reverse

namespace Carries

/-- The environment is made of the declarations that are carried. -/
theorem environment (carries : before.Carries labels className ofClass ofSubroutine) :
    before.environment = .ofDeclarations className ofClass.reverse ofSubroutine.reverse := by
  simp only [PassState.environment, Environment.ofDeclarations, carries.className,
    Environment.mk.injEq, true_and]
  funext name
  cases isLocal : Declaration.symbol? ofSubroutine.reverse name <;>
    simp only [Scope.resolve?, carries.ofSubroutine.symbols, carries.ofClass.symbols, isLocal]

/-- Moving over terminals changes nothing of it. -/
theorem reads {terminals : List Terminal}
    (carries : before.Carries labels className ofClass ofSubroutine)
    (move : before.Reads source terminals after) :
    after.Carries labels className ofClass ofSubroutine := by
  rw [move.others]
  exact ⟨carries.labels, carries.className, carries.ofClass, carries.ofSubroutine⟩

/-- Moving over terminals and drawing labels changes the labels alone. -/
theorem passes {terminals : List Terminal}
    (carries : before.Carries labels className ofClass ofSubroutine)
    (move : before.Passes source terminals after) :
    after.Carries after.labels className ofClass ofSubroutine := by
  refine ⟨rfl, move.className.trans carries.className, ?_, ?_⟩
  · rw [move.scope]
    exact carries.ofClass
  · rw [move.scope]
    exact carries.ofSubroutine

end Carries

end PassState

namespace Pass

/-! ## Sequences of parts -/

section Sequences

variable {σ α ι : Type} {context : PassContext} {before after : PassState σ}

/-- Items separated by commas have moved over what was found by each of them, if an invariant holds
that each item keeps and that tells what was found so far. -/
theorem separated_of_done {item : α → Pass σ α} (yield : ι → List Terminal)
    (Holds : List ι → α → PassState σ → Prop)
    (keeps : ∀ ⦃seen value before after⦄, Holds seen value before →
      before.Reads context.source [.mark .comma] after → Holds seen value after)
    (each : ∀ ⦃seen value next before after⦄, Holds seen value before →
      before.stream.Legible context.source → (item value).run context before = .done next after →
      ∃ found, before.stream.Reads context.source (yield found) after.stream ∧
        Holds (seen ++ [found]) next after)
    (rounds : Nat) (seen : List ι) {value result : α} (holds : Holds seen value before)
    (legible : before.stream.Legible context.source)
    (finished : (iterateFor (separatedStep item) rounds value).run context before =
      .done result after) :
    ∃ first others, before.stream.Reads context.source
        (yield first ++ others.flatMap fun other => .mark .comma :: yield other) after.stream ∧
      Holds (seen ++ first :: others) result after := by
  induction rounds generalizing before seen value with
  | zero => exact absurd finished iterateFor_zero
  | succ rounds inductionHypothesis =>
      rcases separated_eq_done_iff.1 finished with
        ⟨ran, _⟩ | ⟨next, middle, later, ran, comma, rest⟩
      · obtain ⟨found, move, holds⟩ := each holds legible ran
        exact ⟨found, [], by simpa using move, holds⟩
      · obtain ⟨found, move, holds⟩ := each holds legible ran
        have moved := move.trans comma.stream
        obtain ⟨second, others, movedOn, reached⟩ :=
          inductionHypothesis _ (keeps holds comma) (moved.legible legible) rest
        refine ⟨found, second :: others, ?_, ?_⟩
        · simpa using moved.trans movedOn
        · simpa using reached

/-- The same for parts that follow one another as long as a condition holds of the next token. -/
theorem whileNext_of_done {condition : Token.Kind → Bool} {part : α → Pass σ α}
    (yield : ι → List Terminal) (Holds : List ι → α → PassState σ → Prop)
    (each : ∀ ⦃seen value next before after⦄, Holds seen value before →
      before.stream.Legible context.source → (part value).run context before = .done next after →
      ∃ found, before.stream.Reads context.source (yield found) after.stream ∧
        Holds (seen ++ [found]) next after)
    (rounds : Nat) (seen : List ι) {value result : α} (holds : Holds seen value before)
    (legible : before.stream.Legible context.source)
    (finished : (iterateFor (whileStep condition part) rounds value).run context before =
      .done result after) :
    ∃ all, before.stream.Reads context.source (all.flatMap yield) after.stream ∧
      Holds (seen ++ all) result after := by
  induction rounds generalizing before seen value with
  | zero => exact absurd finished iterateFor_zero
  | succ rounds inductionHypothesis =>
      rcases whileNext_eq_done_iff.1 finished with
        ⟨_, rfl, rfl⟩ | ⟨_, next, middle, ran, rest⟩
      · exact ⟨[], .nil _, by simpa using holds⟩
      · obtain ⟨found, move, holds⟩ := each holds legible ran
        obtain ⟨others, movedOn, reached⟩ :=
          inductionHypothesis _ holds (move.legible legible) rest
        refine ⟨found :: others, ?_, ?_⟩
        · simpa using move.trans movedOn
        · simpa using reached

end Sequences

/-! ## Declarations -/

variable {σ : Type} {context : PassContext} {labels : σ} {owner : String}
  {ofClass : List (Declaration ClassStorage)} {ofSubroutine : List (Declaration SubroutineStorage)}
  {before middle after : PassState σ}

/-- A variable of a class that is declared is carried behind those before it. -/
theorem defineInClass_of_done {name type : String} {storage : ClassStorage}
    (carries : before.Carries labels owner ofClass ofSubroutine)
    (finished : (defineInClass name type storage).run context before = .done () after) :
    after.stream = before.stream ∧
      after.Carries labels owner (ofClass ++ [⟨name, type, storage⟩]) ofSubroutine := by
  unfold defineInClass at finished
  rw [run_bind_of_done (run_state context before)] at finished
  split at finished
  · next symbol table defined =>
      cases finished
      refine ⟨rfl, carries.labels, carries.className, ?_, carries.ofSubroutine⟩
      rw [List.reverse_concat]
      exact carries.ofClass.define defined
  · cases finished

/-- A variable of a subroutine that is declared is carried behind those before it. -/
theorem defineInSubroutine_of_done {items : Countable} {name type : String}
    {storage : SubroutineStorage} (carries : before.Carries labels owner ofClass ofSubroutine)
    (finished : (defineInSubroutine items name type storage).run context before =
      .done () after) :
    after.stream = before.stream ∧
      after.Carries labels owner ofClass (ofSubroutine ++ [⟨name, type, storage⟩]) := by
  unfold defineInSubroutine at finished
  rw [run_bind_of_done (run_state context before)] at finished
  split at finished
  · next symbol table defined =>
      cases finished
      refine ⟨rfl, carries.labels, carries.className, carries.ofClass, ?_⟩
      rw [List.reverse_concat]
      exact carries.ofSubroutine.define defined
  · cases finished

/-- A subroutine that is opened carries no variables yet. -/
theorem openSubroutine_of_done (carries : before.Carries labels owner ofClass ofSubroutine)
    (finished : openSubroutine.run context before = .done () after) :
    after.stream = before.stream ∧ after.Carries labels owner ofClass [] := by
  cases finished
  exact ⟨rfl, carries.labels, carries.className, carries.ofClass, .empty⟩

/-- The words of storage classes are the terminals that open a declaration of class variables. -/
theorem mem_classVariableKinds_iff {terminal : Terminal} :
    terminal.kind ∈ Token.Kind.classVariableKinds ↔
      ∃ storage : ClassStorage, terminal = .keyword (storageWord storage) := by
  constructor
  · intro member
    simp only [Token.Kind.classVariableKinds, List.mem_cons, List.not_mem_nil, or_false] at member
    rcases member with kind | kind
    · exact ⟨.static, Terminal.eq_keyword_of_kind kind⟩
    · exact ⟨.field, Terminal.eq_keyword_of_kind kind⟩
  · rintro ⟨storage, rfl⟩
    cases storage <;> simp [storageWord, Terminal.kind, Token.Kind.classVariableKinds]

/-- The word of a storage class decides the storage class. -/
theorem storage_of_word (storage : ClassStorage) :
    (if (Terminal.keyword (storageWord storage)).kind = .keyword .static then ClassStorage.static
      else .field) = storage := by
  cases storage <;> rfl

/-- Variables of a class that are recognised have a tree, whose declarations are carried. -/
theorem classVariables_of_done (carries : before.Carries labels owner ofClass ofSubroutine)
    (legible : before.stream.Legible context.source)
    (finished : classVariables.run context before = .done () after) :
    ∃ tree : ClassVariables, before.stream.Reads context.source tree.yield after.stream ∧
      after.Carries labels owner (ofClass ++ tree.group.declarations tree.storage)
        ofSubroutine := by
  obtain ⟨keyword, typing, first, untyped⟩ := run_bind_eq_done_iff.1 finished
  obtain ⟨text, naming, typed, unnamed⟩ := run_bind_eq_done_iff.1 untyped
  obtain ⟨_, named, listed, ending⟩ := run_bind_eq_done_iff.1 unnamed
  have closed := reads_of_expectMark ending
  obtain ⟨terminal, shown, member, word⟩ := reads_of_expectAny legible first
  obtain ⟨storage, rfl⟩ := mem_classVariableKinds_iff.1 member
  rw [Token.kind_of_terminal? shown, storage_of_word] at listed
  obtain ⟨type, rfl, written⟩ := reads_of_typeName (word.legible legible) typed
  have opened := word.trans written
  obtain ⟨name, others, moved, holds⟩ := separated_of_done
    (fun name : String => [.name name])
    (fun names () state => state.Carries labels owner
      (ofClass ++ names.map fun name => ⟨name, type.text, storage⟩) ofSubroutine)
    (fun _ _ _ _ holds comma => holds.reads comma)
    (by
      intro seen _ _ before after holds legible ran
      obtain ⟨name, _, read, defined⟩ := run_bind_eq_done_iff.1 ran
      have move := reads_of_name legible read
      obtain ⟨same, holds⟩ := defineInClass_of_done (holds.reads move) defined
      exact ⟨name, same ▸ move.stream, by simpa using holds⟩)
    _ [] (by simpa using carries.reads opened) (opened.legible legible) listed
  refine ⟨⟨storage, ⟨type, name, others⟩⟩, ?_, ?_⟩
  · simpa [ClassVariables.yield, Variables.yield] using
      (opened.stream.trans moved).trans closed.stream
  · simpa [Variables.declarations, Variables.names] using holds.reads closed

/-- Parameters that are recognised have trees, whose declarations are carried. -/
theorem parameters_of_done (carries : before.Carries labels owner ofClass ofSubroutine)
    (legible : before.stream.Legible context.source)
    (finished : parameters.run context before = .done () after) :
    ∃ trees : List Parameter, before.stream.Reads context.source
        ([.mark .leftParen] ++ parametersYield trees ++ [.mark .rightParen]) after.stream ∧
      after.Carries labels owner ofClass (ofSubroutine ++
        trees.map fun parameter => ⟨parameter.name, parameter.type.text, .argument⟩) := by
  obtain ⟨_, inside, opening, unopened⟩ := run_bind_eq_done_iff.1 finished
  obtain ⟨empty, chosen, taken, rest⟩ := run_bind_eq_done_iff.1 unopened
  have opened := reads_of_expectMark opening
  rcases reads_of_takeMark taken with ⟨rfl, closed⟩ | ⟨rfl, _, rfl⟩
  · cases rest
    refine ⟨[], ?_, ?_⟩
    · simpa [parametersYield] using opened.stream.trans closed.stream
    · simpa using (carries.reads opened).reads closed
  · obtain ⟨_, behind, listed, ending⟩ := run_bind_eq_done_iff.1 rest
    have closed := reads_of_expectMark ending
    obtain ⟨first, others, moved, holds⟩ := separated_of_done
      Parameter.yield
      (fun trees () state => state.Carries labels owner ofClass (ofSubroutine ++
        trees.map fun parameter => ⟨parameter.name, parameter.type.text, .argument⟩))
      (fun _ _ _ _ holds comma => holds.reads comma)
      (by
        intro seen _ _ before after holds legible ran
        obtain ⟨_, _, typed, unnamed⟩ := run_bind_eq_done_iff.1 ran
        obtain ⟨name, _, read, defined⟩ := run_bind_eq_done_iff.1 unnamed
        obtain ⟨type, rfl, written⟩ := reads_of_typeName legible typed
        have move := written.trans (reads_of_name (written.legible legible) read)
        obtain ⟨same, holds⟩ := defineInSubroutine_of_done (holds.reads move) defined
        exact ⟨⟨type, name⟩, same ▸ move.stream, by simpa using holds⟩)
      _ [] (by simpa using carries.reads opened) (opened.legible legible) listed
    refine ⟨first :: others, ?_, ?_⟩
    · simpa [parametersYield] using (opened.stream.trans moved).trans closed.stream
    · simpa using holds.reads closed

/-- A declaration of local variables also tells how many it declares. -/
theorem localVariables_of_done {count : UInt16}
    (carries : before.Carries labels owner ofClass ofSubroutine)
    (legible : before.stream.Legible context.source)
    (finished : localVariables.run context before = .done count after) :
    ∃ tree : Variables,
      before.stream.Reads context.source (.keyword .var :: tree.yield) after.stream ∧
      after.Carries labels owner ofClass (ofSubroutine ++ tree.declarations .local) ∧
      count.toNat = tree.names.length := by
  obtain ⟨_, typing, first, untyped⟩ := run_bind_eq_done_iff.1 finished
  obtain ⟨_, naming, typed, unnamed⟩ := run_bind_eq_done_iff.1 untyped
  obtain ⟨total, named, listed, unended⟩ := run_bind_eq_done_iff.1 unnamed
  obtain ⟨_, _, ending, last⟩ := run_bind_eq_done_iff.1 unended
  cases last
  have closed := reads_of_expectMark ending
  have word := reads_of_expectKeyword legible first
  obtain ⟨type, rfl, written⟩ := reads_of_typeName (word.legible legible) typed
  have opened := word.trans written
  obtain ⟨name, others, moved, holds, counted⟩ := separated_of_done
    (fun name : String => [.name name])
    (fun names (count : UInt16) state => state.Carries labels owner ofClass
      (ofSubroutine ++ names.map fun name => ⟨name, type.text, .local⟩) ∧
        count.toNat = names.length)
    (fun _ _ _ _ holds comma => ⟨holds.1.reads comma, holds.2⟩)
    (by
      rintro seen count next before after ⟨holds, counted⟩ legible ran
      obtain ⟨name, _, read, defining⟩ := run_bind_eq_done_iff.1 ran
      obtain ⟨_, _, defined, counting⟩ := run_bind_eq_done_iff.1 defining
      have move := reads_of_name legible read
      obtain ⟨same, holds⟩ := defineInSubroutine_of_done (holds.reads move) defined
      split at counting
      · cases counting
      · next below =>
          cases counting
          have apart : count.toNat ≠ 65535 := fun full => below (UInt16.toNat_inj.1 full)
          have bound := count.toNat_lt
          refine ⟨name, same ▸ move.stream, by simpa using holds, ?_⟩
          rw [UInt16.toNat_add, List.length_append, ← counted]
          simp
          omega)
    _ [] ⟨by simpa using carries.reads opened, rfl⟩ (opened.legible legible) listed
  refine ⟨⟨type, name, others⟩, ?_, ?_, ?_⟩
  · simpa [Variables.yield] using (opened.stream.trans moved).trans closed.stream
  · simpa [Variables.declarations, Variables.names] using holds.reads closed
  · simpa [Variables.names] using counted

/-- Local variables that are recognised have trees, whose declarations are carried and counted. -/
theorem allLocalVariables_of_done {total : UInt16}
    (carries : before.Carries labels owner ofClass ofSubroutine)
    (legible : before.stream.Legible context.source)
    (finished : allLocalVariables.run context before = .done total after) :
    ∃ trees : List Variables, before.stream.Reads context.source (localsYield trees) after.stream ∧
      after.Carries labels owner ofClass
        (ofSubroutine ++ trees.flatMap (Variables.declarations .local)) ∧
      total.toNat = (trees.flatMap (Variables.declarations SubroutineStorage.local)).length := by
  unfold allLocalVariables at finished
  rw [run_whileNext] at finished
  obtain ⟨trees, moved, holds, counted⟩ := whileNext_of_done
    (fun group : Variables => .keyword .var :: group.yield)
    (fun trees (count : UInt16) state => state.Carries labels owner ofClass
      (ofSubroutine ++ trees.flatMap (Variables.declarations .local)) ∧
        count.toNat = (trees.flatMap (Variables.declarations SubroutineStorage.local)).length)
    (by
      rintro seen count next before after ⟨holds, counted⟩ legible ran
      obtain ⟨more, _, declared, summing⟩ := run_bind_eq_done_iff.1 ran
      obtain ⟨tree, move, holds, number⟩ := localVariables_of_done holds legible declared
      obtain ⟨added, rfl⟩ := sum_eq_done_iff.1 summing
      refine ⟨tree, move, by simpa using holds, ?_⟩
      rw [added, counted, number]
      simp [Variables.declarations])
    _ [] ⟨by simpa using carries, rfl⟩ legible finished
  exact ⟨trees, moved, holds, counted⟩

/-! ## Subroutines -/

/-- The words of kinds are the terminals that open a subroutine. -/
theorem mem_subroutineKinds_iff {terminal : Terminal} :
    terminal.kind ∈ Token.Kind.subroutineKinds ↔
      ∃ kind : SubroutineKind, terminal = .keyword kind.word := by
  constructor
  · intro member
    simp only [Token.Kind.subroutineKinds, List.mem_cons, List.not_mem_nil, or_false] at member
    rcases member with kind | kind | kind
    · exact ⟨.constructor, Terminal.eq_keyword_of_kind kind⟩
    · exact ⟨.function, Terminal.eq_keyword_of_kind kind⟩
    · exact ⟨.method, Terminal.eq_keyword_of_kind kind⟩
  · rintro ⟨kind, rfl⟩
    cases kind <;> simp [SubroutineKind.word, Terminal.kind, Token.Kind.subroutineKinds]

/-- A return type is what a terminal of that kind stands for. -/
theorem mem_returnTypes_iff {terminal : Terminal} :
    terminal.kind ∈ Token.Kind.returnTypes ↔
      ∃ result : Option TypeName, terminal = resultTerminal result := by
  rw [Token.Kind.returnTypes, List.mem_cons, mem_variableTypes_iff]
  constructor
  · rintro (kind | ⟨type, rfl⟩)
    · exact ⟨none, Terminal.eq_keyword_of_kind kind⟩
    · exact ⟨some type, rfl⟩
  · rintro ⟨_ | type, rfl⟩
    · exact .inl rfl
    · exact .inr ⟨type, rfl⟩

/-- Defines the object that a method is called on. -/
def defineReceiver (keyword : Token.Kind) (owner : String) : Pass σ Unit :=
  if keyword = .keyword .method then defineParameter "this" owner else pure ()

/-- A method starts with the object it is called on among its arguments. -/
theorem defineReceiver_of_done {kind : SubroutineKind}
    (carries : before.Carries labels owner ofClass [])
    (finished : (defineReceiver (.keyword kind.word) owner).run context before =
      .done () after) :
    after.stream = before.stream ∧ after.Carries labels owner ofClass (kind.receiver owner) := by
  cases kind with
  | method => exact defineInSubroutine_of_done carries finished
  | constructor | function =>
      cases finished
      exact ⟨rfl, carries⟩

/-- The prologue of a subroutine depends on its keyword. -/
theorem toList_prologue (kind : SubroutineKind) (fieldCount : Nat) :
    (prologue (.keyword kind.word) (UInt16.ofNat fieldCount)).toList =
      kind.prologue fieldCount := by
  cases kind <;> rfl

/-- What comes before the first declaration of a class sets its name. -/
theorem opening_of_done {name : String} {middle named : PassState σ} {token : Token}
    (scope : before.scope = .empty) (legible : before.stream.Legible context.source)
    (first : (expect (.keyword .class)).run context before = .done token middle)
    (second : Pass.name.run context middle = .done name named)
    (third : (expectMark .leftBrace).run context { named with className := name } =
      .done () after) :
    before.stream.Reads context.source [.keyword .class, .name name, .mark .leftBrace]
      after.stream ∧
    after.Carries before.labels name [] [] := by
  have word := reads_of_expectKeyword legible first
  have read := word.trans (reads_of_name (word.legible legible) second)
  have brace := reads_of_expectMark third
  refine ⟨read.stream.trans brace.stream, ?_⟩
  have empty : named.scope = .empty := read.passes.scope.trans scope
  have carries : { named with className := name }.Carries before.labels name [] [] := by
    refine ⟨read.labels, rfl, ?_, ?_⟩
    · rw [empty]
      exact .empty
    · rw [empty]
      exact .empty
  exact carries.reads brace

end Pass

/-- What was done with a subroutine, given its tree: everything that it asks for is met, and its
labels and its code are those of the tree. -/
structure BuildsSubroutine {σ : Type} [LabelSource σ] (numbering : LabelSource.Numbering σ)
    (number : Nat) (source owner : String) (ofClass : List (Declaration ClassStorage))
    (before : PassState σ) (tree : Subroutine) (code : Code) (after : PassState σ) : Prop where
  reads : before.stream.Reads source tree.yield after.stream
  carries : after.Carries after.labels owner ofClass (tree.declarations owner)
  admissible : tree.Admissible owner ofClass
  labels : numbering.Stands (number + tree.body.labelCount) after.labels
  code : code.toList = tree.code owner ofClass numbering.label number

namespace Pass

variable {σ : Type} [LabelSource σ] {numbering : LabelSource.Numbering σ} {number : Nat}
  {context : PassContext} {owner : String} {ofClass : List (Declaration ClassStorage)}
  {ofSubroutine : List (Declaration SubroutineStorage)} {before after : PassState σ} {code : Code}

/-- A body declares local variables and builds statements in what it has declared. -/
theorem subroutineBody_of_done {count : UInt16}
    (carries : before.Carries before.labels owner ofClass ofSubroutine)
    (stands : numbering.Stands number before.labels)
    (legible : before.stream.Legible context.source)
    (finished : subroutineBody.run context before = .done (count, code) after) :
    ∃ (locals : List Variables) (tree : Statements) (declared : List _) (environment : Environment),
      declared = ofSubroutine ++ locals.flatMap (Variables.declarations .local) ∧
      environment = .ofDeclarations owner ofClass.reverse declared.reverse ∧
      before.stream.Reads context.source
        ([.mark .leftBrace] ++ localsYield locals ++ tree.yield ++ [.mark .rightBrace])
        after.stream ∧
      after.Carries after.labels owner ofClass declared ∧
      (∀ demand ∈ tree.demands environment, demand.Met environment) ∧
      numbering.Stands (number + tree.labelCount) after.labels ∧
      code.toList = tree.code environment numbering.label number ∧
      count.toNat = (locals.flatMap (Variables.declarations SubroutineStorage.local)).length := by
  obtain ⟨_, begun, bracing, undeclared⟩ := run_bind_eq_done_iff.1 finished
  obtain ⟨_, declared, declaring, unstated⟩ := run_bind_eq_done_iff.1 undeclared
  obtain ⟨_, stated, stating, unclosed⟩ := run_bind_eq_done_iff.1 unstated
  obtain ⟨_, _, closing, last⟩ := run_bind_eq_done_iff.1 unclosed
  cases last
  have brace := reads_of_expectMark bracing
  have closed := reads_of_expectMark closing
  obtain ⟨locals, moved, carries, counted⟩ :=
    allLocalVariables_of_done (carries.reads brace) (brace.legible legible) declaring
  have opened := brace.stream.trans moved
  rw [← carries.labels] at stands
  obtain ⟨tree, built⟩ :=
    statements_of_done ⟨opened.legible legible, carries.environment⟩ stands stating
  refine ⟨locals, tree, _, _, rfl, rfl, ?_, ?_, built.met, ?_, built.code, counted⟩
  · exact (opened.trans built.passes.stream).trans closed.stream
  · exact (carries.passes built.passes).passes closed.passes
  · rw [closed.labels]
    exact built.labels

/-- The parameters and the body of a subroutine, and all of its code. -/
def subroutineRest (keyword : Token.Kind) (owner ownName : String) : Pass σ Code := do
  parameters
  let (locals, body) ← subroutineBody
  let header := Code.ofList [.function (owner ++ "." ++ ownName) locals]
  pure (header ++ prologue keyword (← state).scope.fieldCount ++ body)

/-- A subroutine is its head, the receiver, and what is left. -/
theorem subroutine_eq : (subroutine : Pass σ Code) = (do
    let keyword ← expectAny Token.Kind.subroutineKinds
    openSubroutine
    let _ ← expectAny Token.Kind.returnTypes
    let ownName ← name
    let owner ← className
    defineReceiver keyword.kind owner
    subroutineRest keyword.kind owner ownName) := by
  unfold subroutine
  apply bind_congr
  intro keyword
  apply bind_congr
  intro _
  apply bind_congr
  intro _
  apply bind_congr
  intro ownName
  apply bind_congr
  intro owner
  unfold defineReceiver
  by_cases method : keyword.kind = .keyword .method
  · rw [if_pos method, if_pos method]
    rfl
  · rw [if_neg method, if_neg method]
    rfl

/-- After its receiver, a subroutine is what its parameters and its body make of it. -/
theorem subroutineRest_of_done {kind : SubroutineKind} {result : Option TypeName}
    {ownName : String} {start : PassState σ}
    (carries : before.Carries before.labels owner ofClass (kind.receiver owner))
    (stands : numbering.Stands number before.labels)
    (legible : before.stream.Legible context.source)
    (opened : start.stream.Reads context.source
      [.keyword kind.word, resultTerminal result, .name ownName] before.stream)
    (finished : (subroutineRest (.keyword kind.word) owner ownName).run context before =
      .done code after) :
    ∃ tree, BuildsSubroutine numbering number context.source owner ofClass start tree code
      after := by
  obtain ⟨_, entered, parameterising, unbodied⟩ := run_bind_eq_done_iff.1 finished
  obtain ⟨⟨localCount, body⟩, _, embodying, last⟩ := run_bind_eq_done_iff.1 unbodied
  cases last
  obtain ⟨parameters, moved, carries⟩ := parameters_of_done carries legible parameterising
  have same := carries.labels
  rw [← same] at carries stands
  obtain ⟨locals, tree, declared, environment, isDeclared, isEnvironment, movedOn, carries, met,
    stands, isCode, counted⟩ :=
    subroutineBody_of_done carries stands (moved.legible legible) embodying
  subst isDeclared isEnvironment
  have localCount : localCount = UInt16.ofNat
      (locals.flatMap (Variables.declarations SubroutineStorage.local)).length := by
    rw [← counted, UInt16.ofNat_toNat]
  have fieldCount : after.scope.fieldCount = UInt16.ofNat (Declaration.count ofClass .field) := by
    rw [← Declaration.count_reverse, ← carries.ofClass.counts, UInt16.ofNat_toNat]
    rfl
  refine ⟨⟨kind, result, ownName, parameters, locals, tree⟩, ?_, carries, ⟨?_, met⟩, stands, ?_⟩
  · simpa [Subroutine.yield] using (opened.trans moved).trans movedOn
  · intro storage
    have bound := carries.ofSubroutine.count_le storage
    rw [Declaration.count_reverse] at bound
    exact bound
  · rw [Code.toList_append, Code.toList_append, fieldCount, toList_prologue, isCode, localCount]
    rfl

/-- A subroutine that is recognised has a tree, and its code is that of the tree. -/
theorem subroutine_of_done (carries : before.Carries before.labels owner ofClass ofSubroutine)
    (stands : numbering.Stands number before.labels)
    (legible : before.stream.Legible context.source)
    (finished : subroutine.run context before = .done code after) :
    ∃ tree, BuildsSubroutine numbering number context.source owner ofClass before tree code
      after := by
  rw [subroutine_eq] at finished
  obtain ⟨keyword, worded, first, unopened⟩ := run_bind_eq_done_iff.1 finished
  obtain ⟨_, fresh, opening, untyped⟩ := run_bind_eq_done_iff.1 unopened
  obtain ⟨_, typed, typing, unnamed⟩ := run_bind_eq_done_iff.1 untyped
  obtain ⟨name, named, naming, unowned⟩ := run_bind_eq_done_iff.1 unnamed
  obtain ⟨terminal, shown, member, word⟩ := reads_of_expectAny legible first
  obtain ⟨kind, rfl⟩ := mem_subroutineKinds_iff.1 member
  have wordKind : keyword.kind = .keyword kind.word := Token.kind_of_terminal? shown
  obtain ⟨unmoved, carries⟩ := openSubroutine_of_done (carries.reads word) opening
  have moved := word.stream
  rw [← unmoved] at moved
  obtain ⟨terminal, _, member, type⟩ := reads_of_expectAny (moved.legible legible) typing
  obtain ⟨result, rfl⟩ := mem_returnTypes_iff.1 member
  have moved := moved.trans type.stream
  have read := reads_of_name (moved.legible legible) naming
  have moved := moved.trans read.stream
  have carries := (carries.reads type).reads read
  rw [run_bind_of_done run_className, carries.environment, wordKind] at unowned
  obtain ⟨_, received, receiving, rest⟩ := run_bind_eq_done_iff.1 unowned
  obtain ⟨unmoved, carries⟩ := defineReceiver_of_done carries receiving
  rw [← unmoved] at moved
  have same := carries.labels
  rw [← same] at carries stands
  exact subroutineRest_of_done carries stands (moved.legible legible) moved rest

/-! ## Classes -/

/-- Subroutines build the code of their trees, one after another. -/
theorem subroutines_of_done (carries : before.Carries before.labels owner ofClass ofSubroutine)
    (stands : numbering.Stands number before.labels)
    (legible : before.stream.Legible context.source) (rounds : Nat)
    (finished : (iterateFor (whileStep Token.Kind.opensSubroutine
      fun sofar => do pure (sofar ++ (← subroutine))) rounds Code.empty).run context before =
        .done code after) :
    ∃ trees : List Subroutine,
      before.stream.Reads context.source (trees.flatMap Subroutine.yield) after.stream ∧
      (∃ ofSubroutine, after.Carries after.labels owner ofClass ofSubroutine) ∧
      numbering.Stands (number + labelCount trees) after.labels ∧
      (∀ tree ∈ trees, tree.Admissible owner ofClass) ∧
      code.toList = subroutinesCode owner ofClass numbering.label number trees := by
  obtain ⟨trees, moved, carries, stands, admissible, isCode⟩ := whileNext_of_done Subroutine.yield
    (fun trees (code : Code) state =>
      (∃ ofSubroutine, state.Carries state.labels owner ofClass ofSubroutine) ∧
      numbering.Stands (number + labelCount trees) state.labels ∧
      (∀ tree ∈ trees, tree.Admissible owner ofClass) ∧
      code.toList = subroutinesCode owner ofClass numbering.label number trees)
    (by
      rintro seen sofar next before after ⟨⟨_, carries⟩, stands, admissible, isCode⟩ legible ran
      obtain ⟨emitted, _, compiled, last⟩ := run_bind_eq_done_iff.1 ran
      cases last
      obtain ⟨tree, built⟩ := subroutine_of_done carries stands legible compiled
      refine ⟨tree, built.reads, ⟨_, built.carries⟩, ?_, ?_, ?_⟩
      · rw [labelCount_concat, ← Nat.add_assoc]
        exact built.labels
      · rw [List.forall_mem_append, List.forall_mem_singleton]
        exact ⟨admissible, built.admissible⟩
      · rw [subroutinesCode_concat, Code.toList_append, isCode, built.code])
    rounds [] ⟨⟨_, carries⟩, stands, by simp, rfl⟩ legible finished
  exact ⟨trees, moved, carries, stands, admissible, isCode⟩

/-- A class that is done has read all tokens, which are the yield of an admissible tree, and its
name, its labels and its code are those of the tree. -/
theorem classDeclaration_of_done (scope : before.scope = .empty)
    (stands : numbering.Stands number before.labels)
    (legible : before.stream.Legible context.source)
    (finished : classDeclaration.run context before = .done code after) :
    ∃ tree : ClassDeclaration, tree.Admissible ∧
      before.stream.Reads context.source tree.yield after.stream ∧ after.stream.remaining = [] ∧
      after.className = tree.name ∧
      numbering.Stands (number + labelCount tree.subroutines) after.labels ∧
      code.toList = tree.code numbering.label number := by
  -- The steps of the recogniser, from the first keyword to the last token.
  obtain ⟨_, worded, first, unnamed⟩ := run_bind_eq_done_iff.1 finished
  obtain ⟨name, named, naming, unset⟩ := run_bind_eq_done_iff.1 unnamed
  obtain ⟨_, _, setting, unbraced⟩ := run_bind_eq_done_iff.1 unset
  cases setting
  obtain ⟨_, begun, bracing, undeclared⟩ := run_bind_eq_done_iff.1 unbraced
  obtain ⟨_, declared, declaring, uncoded⟩ := run_bind_eq_done_iff.1 undeclared
  obtain ⟨emitted, coded, coding, unclosed⟩ := run_bind_eq_done_iff.1 uncoded
  obtain ⟨_, closed, closing, unended⟩ := run_bind_eq_done_iff.1 unclosed
  rw [run_bind_of_done run_peek?] at unended
  obtain ⟨opened, carries⟩ := opening_of_done scope legible first naming bracing
  obtain ⟨groups, movedVariables, carries⟩ := whileNext_of_done ClassVariables.yield
    (fun trees () state => state.Carries before.labels name
      (trees.flatMap fun declared => declared.group.declarations declared.storage) [])
    (by
      intro seen _ _ before after holds legible ran
      obtain ⟨tree, move, holds⟩ := classVariables_of_done holds legible ran
      exact ⟨tree, move, by simpa using holds⟩)
    _ [] carries (opened.legible legible) declaring
  have moved := opened.trans movedVariables
  have bound := carries.ofClass.count_le
  have same := carries.labels
  rw [← same] at carries stands
  obtain ⟨subroutines, movedSubroutines, ⟨_, carries⟩, stands, admissible, isCode⟩ :=
    subroutines_of_done carries stands (moved.legible legible) _ coding
  have close := reads_of_expectMark closing
  have whole := (moved.trans movedSubroutines).trans close.stream
  have carries := carries.reads close
  rw [← close.labels] at stands
  split at unended
  · cases unended
  · next nothing =>
      cases unended
      refine ⟨⟨name, groups, subroutines⟩, ⟨?_, admissible⟩, ?_, ?_, carries.className, stands,
        isCode⟩
      · intro storage
        have bound := bound storage
        rw [Declaration.count_reverse] at bound
        exact bound
      · simpa [ClassDeclaration.yield] using whole
      · exact List.head?_eq_none_iff.1 nothing

end Pass

end JackCompiler
