import JackCompiler.Proofs.Execution.StatementCode
import JackCompiler.Proofs.Generation.Labels
import JackCompiler.Proofs.Labelling.Unique
import JackCompiler.Proofs.Recognition.StatementSound

/-!
# The code of statements simulates the statements

Where statements have no outcome the machine goes on in their code forever. With what the machine
does for each outcome, and because it has no choice, the machine shows how the statements end.
-/

namespace JackCompiler

open Grammar

/-- The machine can make a number of steps in a stretch. -/
def Lingers (routines : Routines) (program : List Instruction) (low high steps start : Nat)
    (before : Memory) : Prop :=
  ∀ (stack : List Word) (that : Word) (temp : UInt16 → Word), ∃ there,
    Travels routines program low high steps ⟨start, ⟨stack, before, that, temp⟩⟩ there

variable {routines : Routines} {program : List Instruction} {low high start : Nat}
  {before middle after : Memory}

namespace Lingers

variable {steps : Nat}

theorem widen {lower higher : Nat} (lingers : Lingers routines program low high steps start before)
    (lowers : lower ≤ low) (highers : high ≤ higher) :
    Lingers routines program lower higher steps start before := by
  intro stack that temp
  obtain ⟨there, travel⟩ := lingers stack that temp
  exact ⟨there, travel.widen lowers highers⟩

/-- To linger somewhere it is enough to get to where one lingers. -/
theorem behind {between : Nat} (lingers : Lingers routines program low high steps between middle)
    (moves : Moves routines program low high start before between middle) :
    Lingers routines program low high steps start before := by
  intro stack that temp
  obtain ⟨first, that, temp, travel⟩ := moves stack that temp
  obtain ⟨there, onwards⟩ := lingers stack that temp
  have whole := travel.trans onwards
  rw [Nat.add_comm] at whole
  obtain ⟨halfway, enough, _⟩ := whole.shorten
  exact ⟨halfway, enough⟩

/-- Getting somewhere else takes a step. -/
theorem further {between : Nat} (lingers : Lingers routines program low high steps between middle)
    (moves : Moves routines program low high start before between middle)
    (apart : start ≠ between) :
    Lingers routines program low high (steps + 1) start before := by
  intro stack that temp
  obtain ⟨first, that, temp, travel⟩ := moves stack that temp
  obtain ⟨there, onwards⟩ := lingers stack that temp
  cases first with
  | zero =>
      cases travel
      exact absurd rfl apart
  | succ first =>
      have whole := travel.trans onwards
      rw [Nat.add_right_comm, Nat.add_assoc, Nat.add_comm] at whole
      obtain ⟨halfway, enough, _⟩ := whole.shorten
      exact ⟨halfway, enough⟩

end Lingers

section Statements

variable {environment : Environment} {label : Nat → Label}

/-- An expression always has a value. -/
theorem Grammar.Expression.yields (routines : Routines) (environment : Environment)
    (tree : Expression) (before : Memory) :
    ∃ word after, tree.Yields routines environment before word after :=
  ⟨_, ⟨before.frame, _⟩, rfl, rfl⟩

/-- A loop that has no outcome goes on forever, given that its body does where it has none. -/
theorem lingers_loop (placed : environment.Placed) {test : Expression} {body : Statements}
    {number position : Nat}
    (met : ∀ demand ∈ (Statement.loop test body).demands environment, demand.Met environment)
    (embedded : Embedded program position
      ((Statement.loop test body).code environment label number))
    (inBody : ∀ {before : Memory}, (∀ outcome, ¬body.Runs routines environment before outcome) →
      ∀ (steps : Nat) {start : Nat},
        Embedded program start (body.code environment label (number + 2)) →
        Lingers routines program start
          (start + (body.code environment label (number + 2)).length) steps start before)
    (endless : ∀ outcome, ¬(Statement.loop test body).Runs routines environment before outcome)
    (steps : Nat) :
    Lingers routines program position
      (position + ((Statement.loop test body).code environment label number).length) steps position
      before := by
  obtain ⟨metTest, metBody⟩ := List.forall_mem_append.1 met
  rw [Statement.code_loop] at embedded ⊢
  obtain ⟨inner, _⟩ := parts_of_loop embedded
  have above : position ≤ position + 1 + (test.code environment).length + 2 := by omega
  have fits : position + 1 + (test.code environment).length + 2 +
      (body.code environment label (number + 2)).length ≤ position + (loopCode (label number)
        (label (number + 1)) (test.code environment)
        (body.code environment label (number + 2))).length := by
    rw [length_loopCode]
    omega
  -- A round that ends takes some of the steps, and one that does not end takes all.
  induction steps generalizing before with
  | zero => exact fun stack that temp => ⟨_, .stay _⟩
  | succ steps inductionHypothesis =>
      obtain ⟨word, tested, evaluated⟩ := test.yields routines environment before
      by_cases holds : word = Word.truth
      · subst holds
        have enter := moves_into_round embedded (evaluated.turns placed metTest)
        by_cases ended : ∃ outcome, body.Runs routines environment tested outcome
        · obtain ⟨_ | ⟨word, after⟩, round⟩ := ended
          · next again =>
              have ran := Moves.widen (round.reaches placed metBody inner) above fits
              have later := inductionHypothesis fun outcome run =>
                endless outcome (.repeated evaluated round run)
              have behind := later.behind (ran.trans (moves_behind_round embedded))
              exact behind.further enter (by omega)
          · exact absurd (.broken evaluated round) (endless _)
        · have lingers := inBody (not_exists.1 ended) (steps + 1) inner
          exact (lingers.widen above fits).behind enter
      · exact absurd (.left evaluated holds) (endless _)

mutual

/-- Wherever the code of a statement is embedded, the machine stays in it forever from a memory from
which the statement has no outcome. -/
theorem Grammar.Statement.lingers (placed : environment.Placed) (tree : Statement)
    {before : Memory} (endless : ∀ outcome, ¬tree.Runs routines environment before outcome)
    (steps : Nat) {number position : Nat}
    (met : ∀ demand ∈ tree.demands environment, demand.Met environment)
    (embedded : Embedded program position (tree.code environment label number)) :
    Lingers routines program position (position + (tree.code environment label number).length)
      steps position before := by
  cases tree with
  | assign target value =>
      obtain ⟨word, after, evaluated⟩ := value.yields routines environment before
      exact absurd (.assign evaluated) (endless _)
  | assignElement array index value =>
      obtain ⟨offset, middle, indexed⟩ := index.yields routines environment before
      obtain ⟨word, after, evaluated⟩ := value.yields routines environment middle
      exact absurd (.assignElement indexed evaluated) (endless _)
  | choice test body alternative =>
      obtain ⟨metBoth, metAlternative⟩ := List.forall_mem_append.1 met
      obtain ⟨metTest, metBody⟩ := List.forall_mem_append.1 metBoth
      rw [Statement.code_choice] at embedded ⊢
      obtain ⟨inBody, inAlternative, _⟩ := parts_of_choice embedded
      obtain ⟨word, tested, evaluated⟩ := test.yields routines environment before
      by_cases holds : word = Word.truth
      · subst holds
        have enter := moves_into_body embedded (evaluated.turns placed metTest)
        have inner := body.lingers placed (fun outcome run => endless outcome
          (.chosen evaluated run)) steps metBody inBody
        refine (inner.widen ?_ ?_).behind enter
        · omega
        · rw [length_choiceCode]
          omega
      · have enter := moves_into_alternative embedded (evaluated.turns placed metTest) holds
        have inner := alternative.lingers placed (fun outcome run => endless outcome
          (.passed evaluated holds run)) steps metAlternative inAlternative
        refine (inner.widen ?_ ?_).behind enter
        · omega
        · rw [length_choiceCode]
          omega
  | loop test body =>
      obtain ⟨_, metBody⟩ := List.forall_mem_append.1 met
      exact lingers_loop placed met embedded
        (fun endless steps _ inner => body.lingers placed endless steps metBody inner) endless steps
  | perform call => exact absurd .perform (endless _)
  | «return» value =>
      cases value with
      | none => exact absurd .returnZero (endless _)
      | some value =>
          obtain ⟨word, after, evaluated⟩ := value.yields routines environment before
          exact absurd (.returnValue evaluated) (endless _)

/-- Where statements have no outcome, the machine stays in their code for any number of steps. -/
theorem Grammar.Statements.lingers (placed : environment.Placed) (tree : Statements)
    {before : Memory} (endless : ∀ outcome, ¬tree.Runs routines environment before outcome)
    (steps : Nat) {number position : Nat}
    (met : ∀ demand ∈ tree.demands environment, demand.Met environment)
    (embedded : Embedded program position (tree.code environment label number)) :
    Lingers routines program position (position + (tree.code environment label number).length)
      steps position before := by
  cases tree with
  | nil => exact absurd .nil (endless _)
  | cons first others =>
      obtain ⟨metFirst, metOthers⟩ := List.forall_mem_append.1 met
      rw [Statements.code, List.length_append, ← Nat.add_assoc]
      have above := Nat.le_add_right position (first.code environment label number).length
      have below := Nat.le_add_right (position + (first.code environment label number).length)
        (others.code environment label (number + first.labelCount)).length
      by_cases ended : ∃ outcome, first.Runs routines environment before outcome
      · obtain ⟨_ | ⟨word, after⟩, run⟩ := ended
        · next middle =>
            have ran := Moves.widen (run.reaches placed metFirst embedded.left)
              (Nat.le_refl position) below
            have rest := others.lingers placed (fun outcome later => endless outcome
              (.next run later)) steps metOthers embedded.right
            exact (rest.widen above (Nat.le_refl _)).behind ran
        · exact absurd (.stop run) (endless _)
      · have lingers := first.lingers placed (not_exists.1 ended) steps metFirst embedded.left
        exact lingers.widen (Nat.le_refl _) below

/-- Where an alternative has no outcome, the machine stays in its code for any number of steps. -/
theorem Grammar.Alternative.lingers (placed : environment.Placed) (tree : Alternative)
    {before : Memory} (endless : ∀ outcome, ¬tree.Runs routines environment before outcome)
    (steps : Nat) {number position : Nat}
    (met : ∀ demand ∈ tree.demands environment, demand.Met environment)
    (embedded : Embedded program position (tree.code environment label number)) :
    Lingers routines program position (position + (tree.code environment label number).length)
      steps position before := by
  cases tree with
  | absent => exact absurd .absent (endless _)
  | present body =>
      exact body.lingers placed (fun outcome run => endless outcome (.present run)) steps met
        embedded

end

end Statements

/-! ## Simulation -/

/-- Where a stretch of a program shows how statements ended in it that started with a given stack:
right behind the stretch with that stack, or at a return in it with one word above that stack. -/
def Configuration.Shows (program : List Instruction) (low high : Nat) (stack : List Word)
    (here : Configuration) : Outcome → Prop
  | .normal memory =>
      here.position = high ∧ here.state.stack = stack ∧ here.state.memory = memory
  | .returned word memory =>
      low ≤ here.position ∧ here.position < high ∧ program[here.position]? = some .return ∧
        here.state.stack = word :: stack ∧ here.state.memory = memory

/-- The machine in a stretch of a program does as statements do: it gets to where their outcome
shows, and never leaves the stretch nor halts if they have none. -/
structure Simulates (routines : Routines) (environment : Environment) (tree : Statements)
    (program : List Instruction) (low high : Nat) (start : MachineState) : Prop where
  outcome : ∀ outcome, tree.Runs routines environment start.memory outcome ↔
    ∃ steps there, Travels routines program low high steps ⟨low, start⟩ there ∧
      there.Shows program low high start.stack outcome
  endless : (∀ outcome, ¬tree.Runs routines environment start.memory outcome) ↔
    ∀ steps, ∃ there, Travels routines program low high steps ⟨low, start⟩ there

namespace Configuration.Shows

variable {stack : List Word} {here : Configuration} {outcome : Outcome}

/-- Where the machine shows an outcome, it stops. -/
theorem stops (seen : here.Shows program low high stack outcome) :
    Stops routines program low high here := by
  cases outcome with
  | normal memory => exact stops_of_position (Nat.le_of_eq seen.1.symm)
  | returned word memory => exact stops_of_return seen.2.2.1

/-- The machine shows one outcome at most. -/
theorem unique {other : Outcome} (one : here.Shows program low high stack outcome)
    (two : here.Shows program low high stack other) : outcome = other := by
  cases outcome with
  | normal memory =>
      obtain ⟨behind, _, rfl⟩ := one
      cases other with
      | normal memory => rw [two.2.2]
      | returned word memory => exact absurd two.2.1 (by omega)
  | returned word memory =>
      obtain ⟨_, below, _, stacked, rfl⟩ := one
      cases other with
      | normal memory => exact absurd two.1 (by omega)
      | returned word memory =>
          obtain ⟨_, _, _, stacked', rfl⟩ := two
          rw [stacked, List.cons.injEq] at stacked'
          rw [stacked'.1]

end Configuration.Shows

/-- The machine comes to a state that shows the outcome that is reached. -/
theorem Reaches.exists_shows {outcome : Outcome}
    (reaches : Reaches routines program low high low before outcome) (stack : List Word)
    (that : Word) (temp : UInt16 → Word) :
    ∃ steps there,
      Travels routines program low high steps ⟨low, ⟨stack, before, that, temp⟩⟩ there ∧
        there.Shows program low high stack outcome := by
  cases outcome with
  | normal after =>
      obtain ⟨steps, that, temp, travel⟩ := reaches stack that temp
      exact ⟨steps, _, travel, rfl, rfl, rfl⟩
  | returned word after =>
      obtain ⟨steps, position, that, temp, travel, above, below, found⟩ := reaches stack that temp
      exact ⟨steps, _, travel, above, below, found, rfl, rfl⟩

/-- The code of statements simulates them wherever it is embedded. -/
theorem Grammar.Statements.simulates {environment : Environment} {label : Nat → Label}
    (placed : environment.Placed) (tree : Statements) {number position : Nat}
    (met : ∀ demand ∈ tree.demands environment, demand.Met environment)
    (embedded : Embedded program position (tree.code environment label number))
    (start : MachineState) :
    Simulates routines environment tree program position
      (position + (tree.code environment label number).length) start := by
  have shown {outcome : Outcome} (run : tree.Runs routines environment start.memory outcome) :=
    (run.reaches placed met embedded).exists_shows start.stack start.that start.temp
  have forever (endless : ∀ outcome, ¬tree.Runs routines environment start.memory outcome)
      (steps : Nat) :=
    tree.lingers placed endless steps met embedded start.stack start.that start.temp
  refine ⟨fun outcome => ⟨shown, ?_⟩, forever, ?_⟩
  · rintro ⟨steps, there, travel, seen⟩
    by_cases ended : ∃ other, tree.Runs routines environment start.memory other
    · obtain ⟨other, run⟩ := ended
      obtain ⟨_, there', travel', again⟩ := shown run
      have same := Stops.unique travel seen.stops travel' again.stops
      subst same
      rw [seen.unique again]
      exact run
    · obtain ⟨further, more⟩ := forever (not_exists.1 ended) (steps + 1)
      exact absurd (seen.stops.last travel more) (by omega)
  · intro forever outcome run
    obtain ⟨steps, there, travel, seen⟩ := shown run
    obtain ⟨further, more⟩ := forever (steps + 1)
    exact absurd (seen.stops.last travel more) (by omega)

/-- The terminals of statements have one tree. -/
theorem Grammar.Statements.yield_injective {left right : Statements}
    (same : left.yield = right.yield) : left = right := by
  have closed : left.yield ++ .mark .rightBrace :: [] = right.yield ++ .mark .rightBrace :: [] := by
    rw [same]
  exact (left.unique right closed).1

/-- Labels that are defined once in code and not around it are defined once in the program. -/
theorem embedded_of_fresh {code lead trail : List Instruction}
    (once : ∀ label, code.count (.label label) ≤ 1)
    (fresh : ∀ label, .label label ∈ code → .label label ∉ lead ∧ .label label ∉ trail) :
    Embedded (lead ++ code ++ trail) lead.length code := by
  refine ⟨⟨lead, trail, rfl, rfl⟩, ?_⟩
  intro label member
  obtain ⟨notBefore, notBehind⟩ := fresh label member
  rw [List.count_append, List.count_append, List.count_eq_zero.2 notBefore,
    List.count_eq_zero.2 notBehind]
  have bound := once label
  omega

/-- Statements that are compiled have one tree, and draw the labels of that tree. If these labels
are different, then wherever the code stands in a program that defines them nowhere else, the
machine does as the statements do from every state. -/
theorem statements_simulate {σ : Type} [LabelSource σ] {context : PassContext}
    {before after : PassState σ} {code : Code} (legible : before.stream.Legible context.source)
    (finished : Pass.statements.run context before = .done code after) :
    ∃ tree : Statements, before.stream.Reads context.source tree.yield after.stream ∧
      (∀ other : Statements,
        before.stream.Reads context.source other.yield after.stream → other = tree) ∧
      LabelSource.drawn? before.labels tree.labelCount = some after.labels ∧
      ∀ (routines : Routines) (lead trail : List Instruction),
        LabelSource.Distinct before.labels tree.labelCount →
        (∀ label, .label label ∈ code.toList → .label label ∉ lead ∧ .label label ∉ trail) →
        ∀ start : MachineState,
          Simulates routines before.environment tree (lead ++ code.toList ++ trail) lead.length
            (lead.length + code.toList.length) start := by
  obtain ⟨tree, built⟩ := Pass.statements_of_done ⟨legible, rfl⟩
    (LabelSource.numbering_stands before.labels) finished
  have drawn : LabelSource.drawn? before.labels tree.labelCount = some after.labels := by
    rw [← Nat.zero_add tree.labelCount]
    exact built.labels
  refine ⟨tree, built.passes.stream, ?_, drawn, ?_⟩
  · intro other read
    exact Statements.yield_injective (read.terminals_unique built.passes.stream)
  · intro routines lead trail distinct fresh start
    have once (label : Label) : (tree.code before.environment
        (LabelSource.numbering before.labels).label 0).count (.label label) ≤ 1 :=
      tree.count_label_le_one label distinct drawn
    rw [built.code] at fresh ⊢
    exact tree.simulates before.placed built.met (embedded_of_fresh once fresh) start

/-- A loop in front of a token that opens no statement. Its labels are the last and the first of a
sequence that is drawn through handles. -/
theorem statements_simulate_of_loop :
    ∃ (context : PassContext) (before after : PassState SharedLabels) (tree : Statements),
      before.stream.Legible context.source ∧
      Pass.statements.run context before = .done (.ofList [.label ⟨4294967295⟩, .push .constant 0,
        .command .not, .ifGoto ⟨0⟩, .goto ⟨4294967295⟩, .label ⟨0⟩]) after ∧
      before.stream.Reads context.source tree.yield after.stream ∧
      LabelSource.drawn? before.labels tree.labelCount = some after.labels ∧
      LabelSource.Distinct before.labels tree.labelCount ∧
      ∀ (routines : Routines) (start : MachineState),
        Simulates routines before.environment tree [.label ⟨4294967295⟩, .push .constant 0,
          .command .not, .ifGoto ⟨0⟩, .goto ⟨4294967295⟩, .label ⟨0⟩] 0 6 start := by
  let tokens : List Token := [⟨.keyword .while, ⟨0, 5⟩⟩, ⟨.punctuation .leftParen, ⟨5, 1⟩⟩,
    ⟨.integer 0, ⟨6, 1⟩⟩, ⟨.punctuation .rightParen, ⟨7, 1⟩⟩, ⟨.punctuation .leftBrace, ⟨8, 1⟩⟩,
    ⟨.punctuation .rightBrace, ⟨9, 1⟩⟩, ⟨.punctuation .semicolon, ⟨10, 1⟩⟩]
  let context : PassContext := ⟨"while(0){};", 8⟩
  let before : PassState SharedLabels := ⟨⟨[], tokens, 11⟩, ⟨4294967295, 2⟩, .empty, "A"⟩
  have legible : before.stream.Legible context.source := by
    unfold TokenStream.Legible
    decide +kernel
  have yields : (Pass.statements.run context before).value? = some (.ofList
      [.label ⟨4294967295⟩, .push .constant 0, .command .not, .ifGoto ⟨0⟩, .goto ⟨4294967295⟩,
        .label ⟨0⟩]) := by
    decide +kernel
  obtain ⟨after, finished⟩ := PassResult.exists_done yields
  obtain ⟨tree, reads, unique, drawn, simulates⟩ := statements_simulate legible finished
  have isTree : Statements.cons (.loop (.mk (.integer 0) .nil) .nil) .nil = tree := by
    have stream : (match Pass.statements.run context before with
        | .done _ state => some state.stream
        | .halted _ _ => none) = some ⟨(tokens.take 6).reverse, tokens.drop 6, 11⟩ := by
      decide +kernel
    rw [finished, Option.some.injEq] at stream
    refine unique _ ?_
    rw [stream]
    exact .cons rfl (by decide +kernel) <| .cons rfl (by decide +kernel) <|
      .cons rfl (by decide +kernel) <| .cons rfl (by decide +kernel) <|
      .cons rfl (by decide +kernel) <| .cons rfl (by decide +kernel) <| .nil _
  have distinct : LabelSource.Distinct before.labels tree.labelCount := by
    rw [← isTree]
    exact SharedLabels.distinct (by decide)
  refine ⟨context, before, after, tree, legible, finished, reads, drawn, distinct, ?_⟩
  intro routines start
  exact simulates routines [] [] distinct (fun _ _ => ⟨List.not_mem_nil, List.not_mem_nil⟩) start

end JackCompiler
