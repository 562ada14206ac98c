import JackCompiler.Proofs.Generation.Calls
import JackCompiler.Proofs.Output.Block
import JackCompiler.Proofs.Prediction.Independence
import JackCompiler.Proofs.Recognition.Guards
import JackCompiler.Proofs.Recognition.Language

/-!
# Counts and their limits

Five things of a class are counted in words: its statics, its fields, the parameters and the locals
of each subroutine, and what each call passes. `Exceeds` says on the tree, with numbers that nothing
bounds, what is too many. A request for room that is not met is traced back to the declarations or
the call it is made for, and a tree in which nothing is too many has the counts of its code.
-/

namespace JackCompiler

open Grammar

namespace Grammar

/-- What is too many in a class to be counted in a word. A name that is declared again counts again,
and the object of a method counts as a parameter and in every call that passes it. -/
inductive ClassDeclaration.Exceeds (tree : ClassDeclaration) : Countable → Prop
  /-- The statics or the fields. -/
  | classVariables (storage : ClassStorage)
      (excess : maxCount < Declaration.count tree.declarations storage) :
      Exceeds tree .classVariables
  | parameters {subroutine : Subroutine} (member : subroutine ∈ tree.subroutines)
      (excess : maxCount < subroutine.parameters.length +
        if subroutine.kind = .method then 1 else 0) :
      Exceeds tree .parameters
  | localVariables {subroutine : Subroutine} (member : subroutine ∈ tree.subroutines)
      (excess : maxCount < subroutine.localDeclarations.length) :
      Exceeds tree .localVariables
  | arguments {subroutine : Subroutine} {call : String × Nat}
      (member : subroutine ∈ tree.subroutines)
      (made : call ∈ subroutine.calls tree.name tree.declarations) (excess : maxCount < call.2) :
      Exceeds tree .arguments

/-- Whether every variable that is read or assigned in a class is declared where it is used. -/
def ClassDeclaration.Resolved (tree : ClassDeclaration) : Prop :=
  ∀ subroutine ∈ tree.subroutines, ∀ name,
    .visible name ∈ subroutine.body.demands
      (subroutine.environment tree.name tree.declarations) →
    subroutine.Declares tree.name tree.declarations name

/-- Whether a block of code counts what there is in a subroutine of a class. -/
structure Subroutine.CountedBy (tree : ClassDeclaration) (block : Block)
    (subroutine : Subroutine) : Prop where
  name : block.name = tree.name ++ "." ++ subroutine.name
  /-- Its head counts the locals. -/
  locals : block.locals.toNat = subroutine.localDeclarations.length
  /-- It makes the calls of the tree, each with the number of words that it is passed. -/
  calls : callsIn block.body = subroutine.calls tree.name tree.declarations
  /-- A constructor asks for a word for each field. -/
  words : subroutine.kind = .constructor → ∃ size others,
    block.body = .push .constant size :: .call Library.allocate 1 :: others ∧
      size.toNat = Declaration.count tree.declarations .field

/-- Whatever is counted in an admissible class is not too many. -/
theorem ClassDeclaration.Admissible.not_exceeds {tree : ClassDeclaration}
    (admissible : tree.Admissible) {items : Countable} : ¬tree.Exceeds items := by
  intro exceeds
  cases exceeds with
  | classVariables storage excess =>
      exact absurd (admissible.counts storage) (Nat.not_le_of_lt excess)
  | @parameters subroutine member excess =>
      rw [← subroutine.count_argument tree.name] at excess
      exact absurd ((admissible.subroutines subroutine member).counts .argument)
        (Nat.not_le_of_lt excess)
  | @localVariables subroutine member excess =>
      rw [← subroutine.count_local tree.name] at excess
      exact absurd ((admissible.subroutines subroutine member).counts .local)
        (Nat.not_le_of_lt excess)
  | @arguments subroutine call member made excess =>
      -- The calls are those in the code, where they are passed as words.
      rw [← (admissible.subroutines subroutine member).callsIn_code (fun _ => ⟨0⟩) 0] at made
      obtain ⟨instruction, _, isCall⟩ := List.mem_filterMap.1 made
      cases instruction with
      | call name words =>
          cases isCall
          exact absurd excess (Nat.not_lt_of_le (Nat.le_of_lt_succ words.toNat_lt))
      | _ => cases isCall

/-- What is admissible is resolved: all names that are to stand for variables do. -/
theorem ClassDeclaration.Admissible.resolved {tree : ClassDeclaration}
    (admissible : tree.Admissible) : tree.Resolved := fun subroutine member _ used =>
  Subroutine.declares_iff.2 ((admissible.subroutines subroutine member).demands _ used)

/-- The block of an admissible subroutine has its counts. -/
theorem Subroutine.Admissible.counted {tree : ClassDeclaration} {subroutine : Subroutine}
    (admissible : subroutine.Admissible tree.name tree.declarations)
    (fields : Declaration.count tree.declarations .field ≤ maxCount) (label : Nat → Label)
    (number : Nat) :
    subroutine.CountedBy tree (subroutine.block tree.name tree.declarations label number) where
  name := rfl
  locals := admissible.toNat_locals
  calls := by
    rw [← admissible.callsIn_code label number, Subroutine.code_eq]
    rfl
  words isConstructor := by
    have body : (subroutine.block tree.name tree.declarations label number).body =
        subroutine.kind.prologue (Declaration.count tree.declarations .field) ++
          subroutine.body.code (subroutine.environment tree.name tree.declarations) label number :=
      rfl
    rw [body, isConstructor]
    exact ⟨_, _, rfl, toNat_count fields⟩

end Grammar

namespace Prediction

/-! ## Requests of bodies -/

/-- What an environment lacks for some demands and calls. -/
inductive Lacks (environment : Environment) (demands : List Demand) (calls : List (String × Nat)) :
    Lack → Prop
  | variable {name : String} (used : .visible name ∈ demands)
      (absent : environment.place? name = none) : Lacks environment demands calls (.variable name)
  | arguments {call : String × Nat} (made : call ∈ calls) (excess : maxCount < call.2) :
      Lacks environment demands calls (.room .arguments)

/-- Whether all requests that are not met come from some demands and calls. -/
def Traced (environment : Environment) (demands : List Demand) (calls : List (String × Nat))
    (requests : List Request) : Prop :=
  ∀ request ∈ requests, request.met = false → Lacks environment demands calls request.lack

section Environments

variable {environment : Environment} {demands demands' : List Demand}
  {calls calls' : List (String × Nat)} {requests requests' : List Request}

/-- What is lacking among some demands and calls is lacking among more. -/
theorem Lacks.mono {lack : Lack} (lacks : Lacks environment demands calls lack)
    (used : demands ⊆ demands') (made : calls ⊆ calls') :
    Lacks environment demands' calls' lack := by
  cases lacks with
  | «variable» isUsed absent => exact .variable (used isUsed) absent
  | arguments isMade excess => exact .arguments (made isMade) excess

namespace Traced

theorem nil : Traced environment demands calls [] := List.forall_mem_nil _

/-- Requests that are traced to some demands and calls are traced to more. -/
theorem mono (traced : Traced environment demands calls requests) (used : demands ⊆ demands')
    (made : calls ⊆ calls') : Traced environment demands' calls' requests :=
  fun request member unmet => (traced request member unmet).mono used made

/-- Requests of two parts are traced to the demands and calls of both. -/
theorem append (first : Traced environment demands calls requests)
    (second : Traced environment demands' calls' requests') :
    Traced environment (demands ++ demands') (calls ++ calls') (requests ++ requests') :=
  List.forall_mem_append.2
    ⟨first.mono (List.subset_append_left _ _) (List.subset_append_left _ _),
      second.mono (List.subset_append_right _ _) (List.subset_append_right _ _)⟩

/-- A name is used where it has to stand for a variable. -/
theorem visible (name : String) (place : Nat)
    (traced : Traced environment demands calls requests) :
    Traced environment (.visible name :: demands) calls
      (.visible environment name place :: requests) := by
  refine List.forall_mem_cons.2 ⟨fun unmet => .variable List.mem_cons_self ?_,
    traced.mono (List.subset_cons_self _ _) (List.Subset.refl _)⟩
  exact Option.not_isSome_iff_eq_none.1 (by simpa [Request.visible] using unmet)

/-- Words are counted for a call that passes at least as many. -/
theorem countable {words place : Nat} {call : String × Nat} (made : call ∈ calls)
    (fewer : words ≤ call.2) (traced : Traced environment demands calls requests) :
    Traced environment demands calls (.countable words place :: requests) := by
  refine List.forall_mem_cons.2 ⟨fun unmet => .arguments made ?_, traced⟩
  have excess : ¬words ≤ maxCount := by simpa [Request.countable] using unmet
  omega

end Traced

mutual

/-- The requests of an expression are traced to its demands and calls. -/
theorem traced_expression (tree : Expression) (place : Nat) :
    Traced environment (tree.demands environment) (tree.calls environment)
      (expressionRequests environment place tree) := by
  cases tree with
  | mk first others => exact (traced_term first place).append (traced_operands others _)

/-- The requests of operands are traced to their demands and calls. -/
theorem traced_operands (tree : Operands) (place : Nat) :
    Traced environment (tree.demands environment) (tree.calls environment)
      (operandRequests environment place tree) := by
  cases tree with
  | nil => exact .nil
  | cons operator operand others =>
      rw [Operands.calls]
      exact ((traced_term operand (place + 1)).mono (List.Subset.refl _)
        (List.subset_append_left _ _)).append (traced_operands others _)

/-- The requests of a term are traced to its demands and calls. -/
theorem traced_term (tree : Term) (place : Nat) :
    Traced environment (tree.demands environment) (tree.calls environment)
      (termRequests environment place tree) := by
  cases tree with
  | integer value => exact .nil
  | string contents => exact .nil
  | constant value => exact .nil
  | name text => exact Traced.nil.visible text place
  | element array index => exact (traced_expression index (place + 2)).visible array place
  | call call => exact traced_call call place
  | group inner => exact traced_expression inner (place + 1)
  | unary operator operand => exact traced_term operand (place + 1)

/-- The requests of a call are traced to its receiver and to the words that it passes. -/
theorem traced_call (tree : Call) (place : Nat) :
    Traced environment (tree.demands environment) (tree.calls environment)
      (callRequests environment place tree) := by
  cases tree with
  | own subroutine arguments =>
      refine (traced_arguments arguments 0 true (place + 1)
        (environment.className ++ "." ++ subroutine, arguments.count + 1) (by simp)).mono
          (List.subset_append_left _ _) (List.Subset.refl _)
  | qualified owner subroutine arguments =>
      rw [Call.calls, callRequests]
      cases environment.place? owner with
      | some receiver =>
          exact (traced_arguments arguments 0 true (place + 3)
            (receiver.type ++ "." ++ subroutine, arguments.count + 1) (by simp)).mono
              (List.subset_append_left _ _) (List.Subset.refl _)
      | none =>
          exact (traced_arguments arguments 0 false (place + 3)
            (owner ++ "." ++ subroutine, arguments.count) (by simp)).mono
              (List.subset_append_left _ _) (List.Subset.refl _)

/-- Arguments behind others are counted for the call that passes all of them. -/
theorem traced_arguments (tree : Arguments) (number : Nat) (receiver : Bool) (place : Nat)
    (call : String × Nat) (passed : number + tree.count + receiver.toNat ≤ call.2) :
    Traced environment (tree.demands environment) (tree.calls environment ++ [call])
      (argumentRequests environment number receiver place tree) := by
  cases tree with
  | nil =>
      exact .countable (List.mem_append_right _ (List.mem_singleton_self _))
        (by simpa [Arguments.count] using passed) .nil
  | cons first others =>
      rw [Arguments.count] at passed
      have behind := traced_arguments others (number + 1) receiver
        (place + 1 + first.yield.length) call (by omega)
      rw [Arguments.calls, List.append_assoc]
      exact (traced_expression first (place + 1)).append
        (.countable (List.mem_append_right _ (List.mem_singleton_self _)) (by omega) behind)

end

mutual

/-- The requests of a statement are traced to its demands and calls. -/
theorem traced_statement (tree : Statement) (place : Nat) :
    Traced environment (tree.demands environment) (tree.calls environment)
      (statementRequests environment place tree) := by
  cases tree with
  | assign target value => exact (traced_expression value (place + 3)).visible target (place + 1)
  | assignElement array index value =>
      exact ((traced_expression index (place + 3)).append (traced_expression value _)).visible array
        (place + 1)
  | choice test body alternative =>
      exact ((traced_expression test (place + 2)).append (traced_statements body _)).append
        (traced_alternative alternative _)
  | loop test body => exact (traced_expression test (place + 2)).append (traced_statements body _)
  | perform call => exact traced_call call (place + 1)
  | «return» value =>
      cases value with
      | none => exact .nil
      | some value => exact traced_expression value (place + 1)

/-- The requests of statements are traced to their demands and calls. -/
theorem traced_statements (tree : Statements) (place : Nat) :
    Traced environment (tree.demands environment) (tree.calls environment)
      (statementsRequests environment place tree) := by
  cases tree with
  | nil => exact .nil
  | cons first others => exact (traced_statement first place).append (traced_statements others _)

/-- The requests of an alternative are traced to its demands and calls. -/
theorem traced_alternative (tree : Alternative) (place : Nat) :
    Traced environment (tree.demands environment) (tree.calls environment)
      (alternativeRequests environment place tree) := by
  cases tree with
  | absent => exact .nil
  | present body => exact traced_statements body (place + 2)

end

end Environments

/-! ## Requests of declarations -/

/-- Whether all requests that are not met are for more of some items, because of a number. -/
def Crowded (items : Countable) (number : Nat) (requests : List Request) : Prop :=
  ∀ request ∈ requests, request.met = false → request.lack = .room items ∧ maxCount < number

/-- What is crowded with some declarations is crowded with more. -/
theorem Crowded.mono {items : Countable} {number number' : Nat} {requests : List Request}
    (crowded : Crowded items number requests) (more : number ≤ number') :
    Crowded items number' requests := fun request member unmet =>
  ⟨(crowded request member unmet).1, Nat.lt_of_lt_of_le (crowded request member unmet).2 more⟩

/-- Room is only lacking if there are too many declarations in the end. -/
theorem crowded_rooms (items : Countable) (step number place count : Nat) :
    Crowded items (number + count) (Request.rooms items step number place count) := by
  induction count generalizing number place with
  | zero => exact List.forall_mem_nil _
  | succ count inductionHypothesis =>
      refine List.forall_mem_cons.2 ⟨fun unmet => ⟨rfl, ?_⟩,
        (inductionHypothesis (number + 1) (place + step)).mono (by omega)⟩
      have full : ¬number < maxCount := by simpa [Request.room] using unmet
      omega

/-- Local variables without room are too many, those of all groups counted. -/
theorem crowded_locals (number place : Nat) (groups : List Variables) :
    Crowded .localVariables
      (number + (groups.flatMap (Variables.declarations SubroutineStorage.local)).length)
      (localRequests number place groups) := by
  induction groups generalizing number place with
  | nil => exact List.forall_mem_nil _
  | cons first others inductionHypothesis =>
      have length : (first.declarations SubroutineStorage.local).length = first.names.length :=
        List.length_map _
      rw [List.flatMap_cons, List.length_append, length, ← Nat.add_assoc]
      exact List.forall_mem_append.2
        ⟨(crowded_rooms _ 2 number (place + 2) _).mono (Nat.le_add_right _ _),
          inductionHypothesis (number + first.names.length) _⟩

/-- Variables of a class without room are too many of their storage. -/
theorem crowded_groups (declared : List (Declaration ClassStorage)) (place : Nat)
    (groups : List ClassVariables) :
    ∀ request ∈ groupRequests declared place groups, request.met = false →
      request.lack = .room .classVariables ∧ ∃ storage,
        maxCount < Declaration.count (declared ++ groups.flatMap fun group =>
          group.group.declarations group.storage) storage := by
  induction groups generalizing declared place with
  | nil => exact List.forall_mem_nil _
  | cons first others inductionHypothesis =>
      rw [List.flatMap_cons, ← List.append_assoc]
      refine List.forall_mem_append.2 ⟨fun request member unmet => ?_, inductionHypothesis _ _⟩
      have crowded := crowded_rooms (Role.ofClass first.storage).items 2
        (Declaration.count declared first.storage) (place + 2) first.group.names.length
      obtain ⟨lack, excess⟩ := crowded request member unmet
      refine ⟨lack, first.storage, Nat.lt_of_lt_of_le excess ?_⟩
      have alike : Declaration.count (first.group.declarations first.storage) first.storage =
          first.group.names.length := by
        rw [Declaration.count_eq_length, Variables.declarations, List.length_map]
        intro declaration member
        obtain ⟨_, _, rfl⟩ := List.mem_map.1 member
        rfl
      rw [Declaration.count_append, Declaration.count_append, alike]
      exact Nat.le_add_right _ _

/-! ## Requests of classes -/

section Classes

variable {tree : ClassDeclaration}

/-- A request of a subroutine that is not met is for something of which there is too much. -/
theorem exceeds_of_subroutine {subroutine : Subroutine} (member : subroutine ∈ tree.subroutines)
    (resolved : tree.Resolved) (place : Nat) :
    ∀ request ∈ subroutineRequests tree.name tree.declarations place subroutine,
      request.met = false → ∃ items, request.lack = .room items ∧ tree.Exceeds items := by
  intro request asked unmet
  rcases List.mem_append.1 asked with inDeclarations | inBody
  · rcases List.mem_append.1 inDeclarations with inParameters | inLocals
    · obtain ⟨lack, excess⟩ := crowded_rooms _ _ _ _ _ request inParameters unmet
      refine ⟨_, lack, .parameters member ?_⟩
      have receiver : Declaration.count (subroutine.kind.receiver tree.name) .argument =
          if subroutine.kind = .method then 1 else 0 := by
        cases subroutine.kind <;> rfl
      rw [receiver, Nat.add_comm] at excess
      exact excess
    · obtain ⟨lack, excess⟩ := crowded_locals _ _ _ request inLocals unmet
      rw [Nat.zero_add] at excess
      exact ⟨_, lack, .localVariables member excess⟩
  · have lacks := traced_statements subroutine.body _ request inBody unmet
    generalize request.lack = lack at lacks
    cases lacks with
    | «variable» used absent =>
        have stands := Subroutine.declares_iff.1 (resolved subroutine member _ used)
        rw [absent] at stands
        cases stands
    | arguments made excess =>
        exact ⟨_, rfl, .arguments member (List.mem_append_right _ made) excess⟩

/-- A request of one of the subroutines that is not met is for something of which there is too
much. -/
theorem exceeds_of_subroutines (resolved : tree.Resolved) (place : Nat)
    {subroutines : List Subroutine} (members : subroutines ⊆ tree.subroutines) :
    ∀ request ∈ subroutinesRequests tree.name tree.declarations place subroutines,
      request.met = false → ∃ items, request.lack = .room items ∧ tree.Exceeds items := by
  induction subroutines generalizing place with
  | nil => exact List.forall_mem_nil _
  | cons first others inductionHypothesis =>
      obtain ⟨member, members⟩ := List.cons_subset.1 members
      exact List.forall_mem_append.2
        ⟨exceeds_of_subroutine member resolved place, inductionHypothesis _ members⟩

/-- A class whose variables are all declared only fails for something that is too many. -/
theorem exceeds_of_verdict (resolved : tree.Resolved) {kind : ErrorKind}
    (failed : verdict tree = some kind) :
    ∃ items, kind = .limitExceeded items ∧ tree.Exceeds items := by
  obtain ⟨refusal, unmet, rfl⟩ := Option.map_eq_some_iff.1 failed
  obtain ⟨earlier, lack, later, shape, isLack, _⟩ := exists_of_firstUnmet unmet
  have asked : ⟨refusal.place, lack, false⟩ ∈ classRequests tree := by
    rw [shape]
    exact List.mem_append_right _ List.mem_cons_self
  have exceeds : ∃ items, lack = .room items ∧ tree.Exceeds items := by
    rcases List.mem_append.1 asked with inGroups | inSubroutines
    · obtain ⟨isRoom, storage, excess⟩ := crowded_groups _ _ _ _ inGroups rfl
      exact ⟨_, isRoom, .classVariables storage excess⟩
    · exact exceeds_of_subroutines resolved _ (List.Subset.refl _) _ inSubroutines rfl
  obtain ⟨items, rfl, exceeds⟩ := exceeds
  exact ⟨items, isLack, exceeds⟩

end Classes

end Prediction

section Compilers

variable {σ : Type} [LabelSource σ]

/-- A class that compiles has the counts of its tree. -/
theorem counted_of_compile {labels : σ} {unit source : String} {tree : ClassDeclaration}
    {compiled : CompiledUnit} (fits : source.utf8ByteSize ≤ Span.maxOffset)
    (isTree : tree.IsTreeOf source) (compiles : (compile labels unit source).1 = .ok compiled) :
    tree.Admissible ∧
      (blocks compiled.code.toList).flatMap Block.instructions = compiled.code.toList ∧
      List.Forall₂ (Subroutine.CountedBy tree) (blocks compiled.code.toList) tree.subroutines := by
  obtain ⟨whole, other, isOther, admissible, belong⟩ :=
    blocks_of_compile (LabelSource.numbering labels) fits (LabelSource.numbering_stands labels)
      (Prod.ext compiles rfl)
  obtain rfl := isOther.unique isTree
  refine ⟨admissible, whole, belong.imp ?_⟩
  rintro block subroutine ⟨member, first, rfl⟩
  exact (admissible.subroutines subroutine member).counted (admissible.counts .field) _ first

/-- A class that is grammatical and whose variables are all declared is turned down exactly if
something in it is too many, and for something that is. Otherwise it compiles, each subroutine to a
block with its counts. The guards of counts that the symbol table has bounded are never met, over
whatever tokens. -/
theorem compile_counts_exact (labels : σ) (unit : String) :
    (∀ guards : Pass.Guards σ, guards.classDeclaration = Pass.classDeclaration) ∧
    ∀ {source : String} {tree : ClassDeclaration}, source.utf8ByteSize ≤ Span.maxOffset →
      tree.IsTreeOf source → tree.Resolved →
      (compile labels unit source).1 ≠ .error (.broken .labelsExhausted) →
      ((∃ error items, (compile labels unit source).1 = .error (.error error) ∧
          error.kind = .limitExceeded items) ↔ ∃ items, tree.Exceeds items) ∧
      (∀ error items, (compile labels unit source).1 = .error (.error error) →
        error.kind = .limitExceeded items → tree.Exceeds items) ∧
      ((∀ items, ¬tree.Exceeds items) →
        ∃ compiled, (compile labels unit source).1 = .ok compiled ∧
          (blocks compiled.code.toList).flatMap Block.instructions = compiled.code.toList ∧
          List.Forall₂ (Subroutine.CountedBy tree) (blocks compiled.code.toList)
            tree.subroutines) := by
  refine ⟨fun guards => guards.classDeclaration_eq, ?_⟩
  intro source tree fits isTree resolved plenty
  have settled := Prediction.settled_of_tree fits isTree plenty
  cases foretold : Prediction.verdict tree with
  | none =>
      obtain ⟨compiled, compiles⟩ := settled.eq_none_iff.1 foretold
      obtain ⟨admissible, counted⟩ := counted_of_compile fits isTree compiles
      refine ⟨⟨?_, ?_⟩, ?_, fun _ => ⟨compiled, compiles, counted⟩⟩
      · rintro ⟨error, items, failed, _⟩
        rw [compiles] at failed
        cases failed
      · rintro ⟨items, exceeds⟩
        exact absurd exceeds admissible.not_exceeds
      · intro error items failed
        rw [compiles] at failed
        cases failed
  | some kind =>
      obtain ⟨error, failed, isKind⟩ := settled.exists_of_some foretold
      obtain ⟨items, rfl, exceeds⟩ := Prediction.exceeds_of_verdict resolved foretold
      refine ⟨⟨fun _ => ⟨items, exceeds⟩, fun _ => ⟨error, items, failed, isKind⟩⟩, ?_, ?_⟩
      · intro other others otherFailed isOthers
        rw [failed] at otherFailed
        cases otherFailed
        rw [isKind] at isOthers
        cases isOthers
        exact exceeds
      · intro few
        exact absurd exceeds (few items)

end Compilers

/-- Names that are declared again count again, and a method is passed its object. -/
theorem compile_counts_exact_of_method :
    ∃ (source : String) (tree : ClassDeclaration) (compiled : CompiledUnit),
      source.utf8ByteSize ≤ Span.maxOffset ∧ tree.IsTreeOf source ∧ tree.Resolved ∧
      (∀ items, ¬tree.Exceeds items) ∧
      (compile (⟨0⟩ : LabelCounter) "P" source).1 = .ok compiled ∧
      (blocks compiled.code.toList).flatMap Block.instructions = compiled.code.toList ∧
      (blocks compiled.code.toList).map (fun block => (block.name, block.locals.toNat)) =
        [("P.new", 0), ("P.m", 2)] ∧
      (blocks compiled.code.toList).map (fun block => callsIn block.body) =
        [[("Memory.alloc", 1)], [("P.m", 2)]] ∧
      (∃ block ∈ blocks compiled.code.toList, ∃ others,
        block.body = .push .constant 2 :: .call "Memory.alloc" 1 :: others) ∧
      (⟨Pass.breakOff .boundExceeded, Pass.breakOff .boundExceeded,
        Pass.breakOff .boundExceeded⟩ : Pass.Guards LabelCounter).classDeclaration =
          Pass.classDeclaration := by
  let source := "class P\x7bfield int a,a;static int s;constructor P new(int x)" ++
    "\x7breturn this;\x7dmethod int m(int y)\x7bvar int y,y;return m(y);\x7d\x7d"
  let returned (term : Term) : Statements := .cons (.return (some (.mk term .nil))) .nil
  let create : Subroutine :=
    ⟨.constructor, some (.named "P"), "new", [⟨.int, "x"⟩], [], returned (.constant .this)⟩
  let again : Subroutine := ⟨.method, some .int, "m", [⟨.int, "y"⟩], [⟨.int, "y", ["y"]⟩],
    returned (.call (.own "m" (.cons (.mk (.name "y") .nil) .nil)))⟩
  let tree : ClassDeclaration :=
    ⟨"P", [⟨.field, ⟨.int, "a", ["a"]⟩⟩, ⟨.static, ⟨.int, "s", []⟩⟩], [create, again]⟩
  have fits : source.utf8ByteSize ≤ Span.maxOffset := by decide +kernel
  have isTree : tree.IsTreeOf source := by decide +kernel
  have admissible : tree.Admissible := by
    refine ⟨fun storage => ?_, List.forall_mem_cons.2
      ⟨⟨fun storage => ?_, by decide +kernel⟩,
        List.forall_mem_singleton.2 ⟨fun storage => ?_, by decide +kernel⟩⟩⟩
    all_goals cases storage <;> decide +kernel
  have enough : (LabelSource.drawn? (⟨0⟩ : LabelCounter) (labelCount tree.subroutines)).isSome := by
    decide +kernel
  have plenty := (Prediction.plenty_of_tree "P" fits isTree (Nat.le_refl _) enough).1
  obtain ⟨unguarded, settled⟩ := compile_counts_exact (⟨0⟩ : LabelCounter) "P"
  obtain ⟨compiled, compiles, whole, counted⟩ :=
    (settled fits isTree admissible.resolved plenty).2.2 fun _ => admissible.not_exceeds
  refine ⟨source, tree, compiled, fits, isTree, admissible.resolved,
    fun _ => admissible.not_exceeds, compiles, whole, ?_⟩
  generalize blocks compiled.code.toList = found at counted
  obtain _ | @⟨new, _, _, _, first, _ | @⟨method, _, _, _, second, _ | _⟩⟩ := counted
  obtain ⟨size, others, body, isSize⟩ := first.words rfl
  have isSize : size = 2 := UInt16.toNat_inj.1 isSize
  subst isSize
  refine ⟨?_, ?_, ⟨new, List.mem_cons_self, others, body⟩, unguarded _⟩
  · simp only [List.map_cons, List.map_nil, first.name, first.locals, second.name, second.locals]
    decide +kernel
  · simp only [List.map_cons, List.map_nil, first.calls, second.calls]
    decide +kernel

end JackCompiler
