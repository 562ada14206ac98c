import JackCompiler.Proofs.Execution.ExpressionCode

/-!
# The code of statements follows their runs

The code of a statement occupies a stretch of a program. When the statement ends normally the
machine comes to the end of the stretch with the stack it had, and when the statement returns it
comes to a return in the stretch with the word to return above that stack. Between two places of a
stretch nothing is said of `pointer 1` and `temp`, which any code may use.
-/

namespace JackCompiler

open Grammar

/-- Code stands at a position of a program, and its labels are defined nowhere else. -/
structure Embedded (program : List Instruction) (position : Nat) (code : List Instruction) :
    Prop where
  holds : HoldsAt program position code
  once : ∀ label, .label label ∈ code → program.count (.label label) ≤ 1

/-- The machine gets from one place of a stretch to another with the stack as it was. -/
def Moves (routines : Routines) (program : List Instruction) (low high start : Nat)
    (before : Memory) (final : Nat) (after : Memory) : Prop :=
  ∀ (stack : List Word) (that : Word) (temp : UInt16 → Word), ∃ steps that' temp',
    Travels routines program low high steps ⟨start, ⟨stack, before, that, temp⟩⟩
      ⟨final, ⟨stack, after, that', temp'⟩⟩

/-- The machine gets to a return in a stretch with one word above the stack as it was. -/
def Returns (routines : Routines) (program : List Instruction) (low high start : Nat)
    (before : Memory) (word : Word) (after : Memory) : Prop :=
  ∀ (stack : List Word) (that : Word) (temp : UInt16 → Word), ∃ steps position that' temp',
    Travels routines program low high steps ⟨start, ⟨stack, before, that, temp⟩⟩
        ⟨position, ⟨word :: stack, after, that', temp'⟩⟩ ∧
      low ≤ position ∧ position < high ∧ program[position]? = some .return

/-- The machine ends in a stretch as a run of statements does. -/
def Reaches (routines : Routines) (program : List Instruction) (low high start : Nat)
    (before : Memory) : Outcome → Prop
  | .normal after => Moves routines program low high start before high after
  | .returned word after => Returns routines program low high start before word after

variable {routines : Routines} {program : List Instruction} {low high start : Nat}
  {before middle after : Memory}

namespace Embedded

variable {position : Nat} {first second : List Instruction} {instruction : Instruction}

/-- Where two parts stand in a program, the first one stands at the place of both. -/
theorem left (whole : Embedded program position (first ++ second)) :
    Embedded program position first :=
  ⟨whole.holds.left, fun label member => whole.once label (List.mem_append_left _ member)⟩

/-- Where two parts stand in a program, the second one stands behind the first one. -/
theorem right (whole : Embedded program position (first ++ second)) :
    Embedded program (position + first.length) second :=
  ⟨whole.holds.right, fun label member => whole.once label (List.mem_append_right _ member)⟩

/-- What is behind the first instruction stands one place further on. -/
theorem tail (whole : Embedded program position (instruction :: second)) :
    Embedded program (position + 1) second :=
  ⟨whole.holds.tail, fun label member => whole.once label (List.mem_cons_of_mem _ member)⟩

/-- A jump goes to where its label is defined. -/
theorem target {label : Label} (whole : Embedded program position (.label label :: second)) :
    target? program label = some position := by
  have once := whole.once label List.mem_cons_self
  obtain ⟨before, after, rfl, rfl⟩ := whole.holds
  have absent : Instruction.label label ∉ before := by
    intro member
    have positive := List.count_pos_iff.2 member
    simp only [List.count_append, List.count_cons_self] at once
    omega
  have unseen : before.findIdx? (· == Instruction.label label) = none :=
    List.idxOf?_eq_none_iff.2 absent
  simp [target?, List.idxOf?, List.findIdx?_append, List.findIdx?_cons, unseen]

end Embedded

namespace Moves

/-- Moves within a stretch go on after each other. -/
theorem trans {between final : Nat}
    (one : Moves routines program low high start before between middle)
    (two : Moves routines program low high between middle final after) :
    Moves routines program low high start before final after := by
  intro stack that temp
  obtain ⟨first, that, temp, travel⟩ := one stack that temp
  obtain ⟨second, that, temp, onwards⟩ := two stack that temp
  exact ⟨first + second, that, temp, travel.trans onwards⟩

/-- Moves within a stretch are within any stretch around it. -/
theorem widen {lower higher final : Nat}
    (moves : Moves routines program low high start before final after) (lowers : lower ≤ low)
    (highers : high ≤ higher) : Moves routines program lower higher start before final after := by
  intro stack that temp
  obtain ⟨steps, that, temp, travel⟩ := moves stack that temp
  exact ⟨steps, that, temp, travel.widen lowers highers⟩

/-- A move within a stretch comes before what is reached from its end. -/
theorem reaches {between : Nat} {outcome : Outcome}
    (one : Moves routines program low high start before between middle)
    (two : Reaches routines program low high between middle outcome) :
    Reaches routines program low high start before outcome := by
  cases outcome with
  | normal after => exact one.trans two
  | returned word after =>
      intro stack that temp
      obtain ⟨first, that, temp, travel⟩ := one stack that temp
      obtain ⟨second, position, that, temp, onwards, found⟩ := two stack that temp
      exact ⟨first + second, position, that, temp, travel.trans onwards, found⟩

end Moves

/-- A return within a stretch is within any stretch around it. -/
theorem Returns.widen {lower higher : Nat} {word : Word}
    (returns : Returns routines program low high start before word after) (lowers : lower ≤ low)
    (highers : high ≤ higher) : Returns routines program lower higher start before word after := by
  intro stack that temp
  obtain ⟨steps, position, that, temp, travel, above, below, found⟩ := returns stack that temp
  exact ⟨steps, position, that, temp, travel.widen lowers highers, Nat.le_trans lowers above,
    Nat.lt_of_lt_of_le below highers, found⟩

/-- A part of a stretch that ends at its own end leads to what is behind it. -/
theorem Reaches.within {lower higher : Nat} {outcome : Outcome}
    (part : Reaches routines program low high start before outcome) (lowers : lower ≤ low)
    (highers : high ≤ higher)
    (onwards : ∀ after, outcome = .normal after →
      Moves routines program lower higher high after higher after) :
    Reaches routines program lower higher start before outcome := by
  cases outcome with
  | normal after => exact (Moves.widen part lowers highers).trans (onwards after rfl)
  | returned word after => exact Returns.widen part lowers highers

/-! ## Code without jumps -/

/-- Code that turns words into others is gone through to its end. -/
theorem Turns.travels {code : List Instruction} {position : Nat} {words results : List Word}
    (turns : Turns routines code words before results after)
    (holds : HoldsAt program position code) (stack : List Word) (that : Word)
    (temp : UInt16 → Word) :
    ∃ steps that' temp', Travels routines program position (position + code.length) steps
      ⟨position, ⟨words ++ stack, before, that, temp⟩⟩
      ⟨position + code.length, ⟨results ++ stack, after, that', temp'⟩⟩ := by
  obtain ⟨that', temp', done⟩ := turns stack that temp
  obtain ⟨_, travel⟩ := (holds.proceeds done).travels (Nat.le_refl _) (Nat.le_refl _)
  exact ⟨_, that', temp', travel⟩

/-- Code that leaves the stack as it was is a statement that ends normally. -/
theorem Turns.moves {code : List Instruction} {position : Nat}
    (turns : Turns routines code [] before [] after) (holds : HoldsAt program position code) :
    Moves routines program position (position + code.length) position before
      (position + code.length) after :=
  fun stack that temp => turns.travels holds stack that temp

/-- Code in front of a return leaves the word to return. -/
theorem Turns.returns {code : List Instruction} {position : Nat} {word : Word}
    (turns : Turns routines code [] before [word] after)
    (holds : HoldsAt program position (code ++ [.return])) :
    Returns routines program position (position + (code ++ [Instruction.return]).length) position
      before word after := by
  intro stack that temp
  obtain ⟨steps, that, temp, travel⟩ := turns.travels holds.left stack that temp
  refine ⟨steps, position + code.length, that, temp, ?_, Nat.le_add_right _ _, ?_,
    holds.right.getElem?⟩
  · exact travel.widen (Nat.le_refl _) (by simp)
  · simp

/-! ## Jumps -/

section Jumps

variable {position goal : Nat} {label : Label} {code rest : List Instruction} {memory : Memory}

/-- The definition of a label does nothing. -/
theorem moves_label (holds : HoldsAt program position (.label label :: rest))
    (above : low ≤ position) (below : position < high) :
    Moves routines program low high position memory (position + 1) memory := by
  intro stack that temp
  refine ⟨1, that, temp, .single above below ?_⟩
  simp [step?, holds.getElem?, Instruction.effect?]

/-- A jump in a stretch goes to the place of its label. -/
theorem moves_goto (holds : HoldsAt program position (.goto label :: rest))
    (found : target? program label = some goal) (above : low ≤ position) (below : position < high) :
    Moves routines program low high position memory goal memory := by
  intro stack that temp
  refine ⟨1, that, temp, .single above below ?_⟩
  simp [step?, holds.getElem?, found]

/-- A test and the jump over what it guards. -/
theorem travels_test {word : Word} (turns : Turns routines code [] before [word] after)
    (holds : HoldsAt program position (code ++ .command .not :: .ifGoto label :: rest))
    (stack : List Word) (that : Word) (temp : UInt16 → Word) :
    ∃ steps that' temp',
      Travels routines program position (position + code.length + 2) steps
        ⟨position, ⟨stack, before, that, temp⟩⟩
        ⟨position + code.length + 1, ⟨~~~word :: stack, after, that', temp'⟩⟩ := by
  obtain ⟨steps, that, temp, travel⟩ := turns.travels holds.left stack that temp
  have negate : step? routines program
      ⟨position + code.length, ⟨[word] ++ stack, after, that, temp⟩⟩ =
        some ⟨position + code.length + 1, ⟨~~~word :: stack, after, that, temp⟩⟩ := by
    simp [step?, holds.right.getElem?, Instruction.effect?, StackCommand.result?]
  refine ⟨steps + 1, that, temp, (travel.widen (Nat.le_refl _) (by omega)).trans ?_⟩
  exact .single (by simp) (by simp) negate

/-- A test that holds goes on behind its jump. -/
theorem moves_of_truth (turns : Turns routines code [] before [Word.truth] after)
    (holds : HoldsAt program position (code ++ .command .not :: .ifGoto label :: rest)) :
    Moves routines program position (position + code.length + 2) position before
      (position + code.length + 2) after := by
  intro stack that temp
  obtain ⟨steps, that, temp, travel⟩ := travels_test turns holds stack that temp
  have onwards : step? routines program
      ⟨position + code.length + 1, ⟨~~~Word.truth :: stack, after, that, temp⟩⟩ =
        some ⟨position + code.length + 2, ⟨stack, after, that, temp⟩⟩ := by
    simp [step?, holds.right.tail.getElem?, Word.complement_eq_zero_iff.2 rfl]
  have above : position ≤ position + code.length + 1 := by omega
  exact ⟨steps + 1, that, temp, travel.trans (.single above (by simp) onwards)⟩

/-- A test that fails jumps. -/
theorem moves_of_not_truth {word : Word} (turns : Turns routines code [] before [word] after)
    (fails : word ≠ Word.truth)
    (holds : HoldsAt program position (code ++ .command .not :: .ifGoto label :: rest))
    (found : target? program label = some goal) :
    Moves routines program position (position + code.length + 2) position before goal after := by
  intro stack that temp
  obtain ⟨steps, that, temp, travel⟩ := travels_test turns holds stack that temp
  have nonzero : ~~~word ≠ 0 := fun zero => fails (Word.complement_eq_zero_iff.1 zero)
  have jump : step? routines program
      ⟨position + code.length + 1, ⟨~~~word :: stack, after, that, temp⟩⟩ =
        some ⟨goal, ⟨stack, after, that, temp⟩⟩ := by
    simp [step?, holds.right.tail.getElem?, nonzero, found]
  have above : position ≤ position + code.length + 1 := by omega
  exact ⟨steps + 1, that, temp, travel.trans (.single above (by simp) jump)⟩

end Jumps

/-! ## Choices and loops -/

/-- The code of a choice, given that of its parts. -/
def choiceCode (otherwise done : Label) (test body alternative : List Instruction) :
    List Instruction :=
  test ++ .command .not :: .ifGoto otherwise ::
    (body ++ .goto done :: .label otherwise :: (alternative ++ [.label done]))

/-- The code of a loop, given that of its parts. -/
def loopCode (top bottom : Label) (test body : List Instruction) : List Instruction :=
  .label top :: (test ++ .command .not :: .ifGoto bottom :: (body ++ [.goto top, .label bottom]))

/-- A choice is its test, its body and its alternative with seven instructions around them in all.
-/
theorem length_choiceCode (otherwise done : Label) (test body alternative : List Instruction) :
    (choiceCode otherwise done test body alternative).length =
      test.length + 2 + body.length + 2 + alternative.length + 1 := by
  simp only [choiceCode, List.length_append, List.length_cons, List.length_nil]
  omega

/-- A loop is its test and its body with five instructions around them in all. -/
theorem length_loopCode (top bottom : Label) (test body : List Instruction) :
    (loopCode top bottom test body).length = 1 + test.length + 2 + body.length + 2 := by
  simp only [loopCode, List.length_append, List.length_cons, List.length_nil]
  omega

section Choices

variable {position : Nat} {otherwise done : Label} {test body alternative : List Instruction}
  {memory tested : Memory}

/-- Where the parts of a choice are, and where it jumps to. -/
theorem parts_of_choice
    (whole : Embedded program position (choiceCode otherwise done test body alternative)) :
    Embedded program (position + test.length + 2) body ∧
    Embedded program (position + test.length + 2 + body.length + 2) alternative ∧
    target? program otherwise = some (position + test.length + 2 + body.length + 1) ∧
    target? program done =
      some (position + test.length + 2 + body.length + 2 + alternative.length) := by
  have inner := whole.right.tail.tail
  have behind := inner.right
  exact ⟨inner.left, behind.tail.tail.left, behind.tail.target, behind.tail.tail.right.target⟩

/-- A test that is true moves into the body of the choice. -/
theorem moves_into_body
    (whole : Embedded program position (choiceCode otherwise done test body alternative))
    (turns : Turns routines test [] before [Word.truth] tested) :
    Moves routines program position
      (position + (choiceCode otherwise done test body alternative).length) position before
      (position + test.length + 2) tested := by
  simp only [length_choiceCode, ← Nat.add_assoc]
  exact (moves_of_truth turns whole.holds).widen (Nat.le_refl _) (by omega)

/-- A test that is not true moves into the alternative. -/
theorem moves_into_alternative {word : Word}
    (whole : Embedded program position (choiceCode otherwise done test body alternative))
    (turns : Turns routines test [] before [word] tested) (fails : word ≠ Word.truth) :
    Moves routines program position
      (position + (choiceCode otherwise done test body alternative).length) position before
      (position + test.length + 2 + body.length + 2) tested := by
  obtain ⟨_, _, target, _⟩ := parts_of_choice whole
  simp only [length_choiceCode, ← Nat.add_assoc]
  have jump := moves_of_not_truth turns fails whole.holds target
  refine (jump.widen (Nat.le_refl _) (by omega)).trans ?_
  exact moves_label whole.right.tail.tail.right.tail.holds (by omega) (by omega)

/-- The end of the body moves behind the choice. -/
theorem moves_behind_body
    (whole : Embedded program position (choiceCode otherwise done test body alternative)) :
    Moves routines program position
      (position + (choiceCode otherwise done test body alternative).length)
      (position + test.length + 2 + body.length) memory
      (position + (choiceCode otherwise done test body alternative).length) memory := by
  obtain ⟨_, _, _, target⟩ := parts_of_choice whole
  simp only [length_choiceCode, ← Nat.add_assoc]
  have behind := whole.right.tail.tail.right
  refine (moves_goto behind.holds target (by omega) (by omega)).trans ?_
  exact moves_label behind.tail.tail.right.holds (by omega) (by omega)

/-- The end of the alternative moves behind the choice. -/
theorem moves_behind_alternative
    (whole : Embedded program position (choiceCode otherwise done test body alternative)) :
    Moves routines program position
      (position + (choiceCode otherwise done test body alternative).length)
      (position + test.length + 2 + body.length + 2 + alternative.length) memory
      (position + (choiceCode otherwise done test body alternative).length) memory := by
  simp only [length_choiceCode, ← Nat.add_assoc]
  have behind := whole.right.tail.tail.right
  exact moves_label behind.tail.tail.right.holds (by omega) (by omega)

end Choices

section Loops

variable {position : Nat} {top bottom : Label} {test body : List Instruction}
  {memory tested : Memory}

/-- Where the body of a loop is, and where the loop jumps to. -/
theorem parts_of_loop (whole : Embedded program position (loopCode top bottom test body)) :
    Embedded program (position + 1 + test.length + 2) body ∧
    target? program top = some position ∧
    target? program bottom = some (position + 1 + test.length + 2 + body.length + 1) := by
  have inner := whole.tail.right.tail.tail
  exact ⟨inner.left, whole.target, inner.right.tail.target⟩

/-- A test that is true moves into another round of the loop. -/
theorem moves_into_round (whole : Embedded program position (loopCode top bottom test body))
    (turns : Turns routines test [] before [Word.truth] tested) :
    Moves routines program position (position + (loopCode top bottom test body).length) position
      before (position + 1 + test.length + 2) tested := by
  simp only [length_loopCode, ← Nat.add_assoc]
  refine (moves_label whole.holds (Nat.le_refl _) (by omega)).trans ?_
  exact (moves_of_truth turns whole.tail.holds).widen (by omega) (by omega)

/-- The end of a round moves back to the test. -/
theorem moves_behind_round (whole : Embedded program position (loopCode top bottom test body)) :
    Moves routines program position (position + (loopCode top bottom test body).length)
      (position + 1 + test.length + 2 + body.length) memory position memory := by
  obtain ⟨_, target, _⟩ := parts_of_loop whole
  simp only [length_loopCode, ← Nat.add_assoc]
  exact moves_goto whole.tail.right.tail.tail.right.holds target (by omega) (by omega)

/-- A test that is not true moves behind the loop. -/
theorem moves_behind_loop {word : Word}
    (whole : Embedded program position (loopCode top bottom test body))
    (turns : Turns routines test [] before [word] tested) (fails : word ≠ Word.truth) :
    Moves routines program position (position + (loopCode top bottom test body).length) position
      before (position + (loopCode top bottom test body).length) tested := by
  obtain ⟨_, _, target⟩ := parts_of_loop whole
  simp only [length_loopCode, ← Nat.add_assoc]
  refine (moves_label whole.holds (Nat.le_refl _) (by omega)).trans ?_
  have jump := moves_of_not_truth turns fails whole.tail.holds target
  refine (jump.widen (by omega) (by omega)).trans ?_
  exact moves_label whole.tail.right.tail.tail.right.tail.holds (by omega) (by omega)

end Loops

/-! ## Statements -/

section Statements

variable {environment : Environment} {label : Nat → Label}

/-- A variable is popped to where it lives. -/
theorem turns_store (placed : environment.Placed) {name : String} {memory : Memory} {word : Word}
    (met : Demand.Met environment (.visible name)) :
    Turns routines (environment.store name) [word] memory []
      (environment.write memory name word) := by
  obtain ⟨⟨type, segment, index⟩, found⟩ := Option.isSome_iff_exists.1 met
  have holds := placed name _ found
  unfold Environment.store Environment.write
  rw [found]
  intro stack that temp
  refine ⟨that, temp, ?_⟩
  rcases holds with rfl | rfl | rfl | rfl <;> rfl

/-- The word goes to the address below it, whatever the word was computed with. -/
theorem turns_storeElement (address word : Word) (memory : Memory) :
    Turns routines [.pop .temp 0, .pop .pointer 1, .push .temp 0, .pop .that 0] [word, address]
      memory [] (memory.writeHeap address word) := by
  intro stack that temp
  refine ⟨address, overwrite temp 0 word, ?_⟩
  simp [perform?, Instruction.effect?, MachineState.store?, MachineState.load?,
    MachineState.push, overwrite]

/-- A word that is of no use is taken from the stack. -/
theorem turns_dropped (word : Word) (memory : Memory) :
    Turns routines [.pop .temp 0] [word] memory [] memory :=
  fun _ that temp => ⟨that, overwrite temp 0 word, rfl⟩

/-- The code of an expression that has a value pushes that word. -/
theorem Grammar.Expression.Yields.turns {tree : Expression} {word : Word}
    (yields : tree.Yields routines environment before word after) (placed : environment.Placed)
    (met : ∀ demand ∈ tree.demands environment, demand.Met environment) :
    Turns routines (tree.code environment) [] before [word] after := by
  obtain ⟨evaluated, same⟩ := yields
  have turns : Turns routines (tree.code environment) [] before _ _ :=
    tree.turns placed met before.globals
  rw [evaluated, ← same] at turns
  exact turns

/-- The code of a choice is made of the code of its parts, between labels of its own. -/
theorem Grammar.Statement.code_choice (test : Expression) (body : Statements)
    (alternative : Alternative) (number : Nat) :
    (Statement.choice test body alternative).code environment label number =
      choiceCode (label number) (label (number + 1)) (test.code environment)
        (body.code environment label (number + 2))
        (alternative.code environment label (number + 2 + body.labelCount)) := by
  simp [Statement.code, choiceCode]

/-- The code of a loop is made of the code of its parts, between labels of its own. -/
theorem Grammar.Statement.code_loop (test : Expression) (body : Statements) (number : Nat) :
    (Statement.loop test body).code environment label number =
      loopCode (label number) (label (number + 1)) (test.code environment)
        (body.code environment label (number + 2)) := by
  simp [Statement.code, loopCode]

/-- The code of an assignment writes the word to the place of the variable. -/
theorem turns_assign (placed : environment.Placed) {target : String} {value : Expression}
    {word : Word} {number : Nat}
    (met : ∀ demand ∈ (Statement.assign target value).demands environment,
      demand.Met environment)
    (evaluated : value.Yields routines environment before word after) :
    Turns routines ((Statement.assign target value).code environment label number) [] before []
      (environment.write after target word) := by
  obtain ⟨visible, metValue⟩ := List.forall_mem_cons.1 met
  exact (evaluated.turns placed metValue).trans (turns_store placed visible)

/-- The address waits on the stack while the value is computed. -/
theorem turns_assignElement (placed : environment.Placed) {array : String}
    {index value : Expression} {offset word : Word} {number : Nat}
    (met : ∀ demand ∈ (Statement.assignElement array index value).demands environment,
      demand.Met environment)
    (indexed : index.Yields routines environment before offset middle)
    (evaluated : value.Yields routines environment middle word after) :
    Turns routines ((Statement.assignElement array index value).code environment label number) []
      before [] (after.writeHeap (environment.read before array + offset) word) := by
  obtain ⟨metArray, metValue⟩ := List.forall_mem_append.1 met
  obtain ⟨visible, metIndex⟩ := List.forall_mem_cons.1 metArray
  have base : Turns routines (environment.load array) [] before [environment.read before array]
      before := turns_load placed visible
  have address := base.trans ((indexed.turns placed metIndex).above _)
  have added : Turns routines [.command .add] [offset, environment.read before array] middle
      [environment.read before array + offset] middle := fun _ that temp => ⟨that, temp, rfl⟩
  have both := (address.trans added).trans ((evaluated.turns placed metValue).above _)
  exact both.trans (turns_storeElement _ word after)

/-- The code of a call as a statement makes the call and drops its result. -/
theorem turns_perform (placed : environment.Placed) {call : Call} {number : Nat}
    (met : ∀ demand ∈ call.demands environment, demand.Met environment) :
    Turns routines ((Statement.perform call).code environment label number) [] before []
      ⟨before.frame, (call.eval routines environment before.frame before.globals).2⟩ :=
  (call.turns placed met before.globals).trans (turns_dropped _ _)

/-- Where the test of a choice is true, its code reaches what the body reaches. -/
theorem reaches_chosen {test : Expression} {body : Statements} {alternative : Alternative}
    {number position : Nat} {tested : Memory} {outcome : Outcome}
    (embedded : Embedded program position
      ((Statement.choice test body alternative).code environment label number))
    (turns : Turns routines (test.code environment) [] before [Word.truth] tested)
    (chosen : ∀ {start : Nat}, Embedded program start (body.code environment label (number + 2)) →
      Reaches routines program start
        (start + (body.code environment label (number + 2)).length) start tested outcome) :
    Reaches routines program position
      (position + ((Statement.choice test body alternative).code environment label number).length)
      position before outcome := by
  rw [Statement.code_choice] at embedded ⊢
  obtain ⟨inner, _⟩ := parts_of_choice embedded
  refine (moves_into_body embedded turns).reaches ((chosen inner).within ?_ ?_ ?_)
  · omega
  · rw [length_choiceCode]
    omega
  · exact fun after _ => moves_behind_body embedded

/-- Where the test of a choice is not true, its code reaches what the alternative reaches. -/
theorem reaches_passed {test : Expression} {body : Statements} {alternative : Alternative}
    {number position : Nat} {tested : Memory} {word : Word} {outcome : Outcome}
    (embedded : Embedded program position
      ((Statement.choice test body alternative).code environment label number))
    (turns : Turns routines (test.code environment) [] before [word] tested)
    (fails : word ≠ Word.truth)
    (passed : ∀ {start : Nat}, Embedded program start
        (alternative.code environment label (number + 2 + body.labelCount)) →
      Reaches routines program start
        (start + (alternative.code environment label (number + 2 + body.labelCount)).length) start
        tested outcome) :
    Reaches routines program position
      (position + ((Statement.choice test body alternative).code environment label number).length)
      position before outcome := by
  rw [Statement.code_choice] at embedded ⊢
  obtain ⟨_, inner, _⟩ := parts_of_choice embedded
  refine (moves_into_alternative embedded turns fails).reaches ((passed inner).within ?_ ?_ ?_)
  · omega
  · rw [length_choiceCode]
    omega
  · exact fun after _ => moves_behind_alternative embedded

/-- Where the test of a loop is not true, its code comes to the end at once. -/
theorem reaches_left {test : Expression} {body : Statements} {number position : Nat}
    {tested : Memory} {word : Word}
    (embedded : Embedded program position
      ((Statement.loop test body).code environment label number))
    (turns : Turns routines (test.code environment) [] before [word] tested)
    (fails : word ≠ Word.truth) :
    Reaches routines program position
      (position + ((Statement.loop test body).code environment label number).length) position
      before (.normal tested) := by
  rw [Statement.code_loop] at embedded ⊢
  exact moves_behind_loop embedded turns fails

/-- A round that ends normally leads to the loop again, and one that returns leaves it. -/
theorem reaches_round {test : Expression} {body : Statements} {number position : Nat}
    {tested : Memory} {ended outcome : Outcome}
    (embedded : Embedded program position
      ((Statement.loop test body).code environment label number))
    (turns : Turns routines (test.code environment) [] before [Word.truth] tested)
    (round : ∀ {start : Nat}, Embedded program start (body.code environment label (number + 2)) →
      Reaches routines program start
        (start + (body.code environment label (number + 2)).length) start tested ended)
    (onwards : match ended with
      | .normal again => Reaches routines program position
          (position + ((Statement.loop test body).code environment label number).length) position
          again outcome
      | .returned word after => outcome = .returned word after) :
    Reaches routines program position
      (position + ((Statement.loop test body).code environment label number).length) position
      before outcome := by
  rw [Statement.code_loop] at embedded onwards ⊢
  obtain ⟨inner, _⟩ := parts_of_loop embedded
  have enter := moves_into_round embedded turns
  have fits : position + 1 + (test.code environment).length + 2 +
      (body.code environment label (number + 2)).length ≤ position + (loopCode (label number)
        (label (number + 1)) (test.code environment)
        (body.code environment label (number + 2))).length := by
    rw [length_loopCode]
    omega
  have above : position ≤ position + 1 + (test.code environment).length + 2 := by omega
  cases ended with
  | normal again =>
      have ran := Moves.widen (round inner) above fits
      exact (enter.trans (ran.trans (moves_behind_round embedded))).reaches onwards
  | returned word after =>
      have ran := Returns.widen (round inner) above fits
      rw [onwards]
      exact enter.reaches ran

/-- Where the first statement ends normally, the code of all reaches what that of the others
reaches. -/
theorem reaches_next {first : Statement} {others : Statements} {number position : Nat}
    {outcome : Outcome}
    (embedded : Embedded program position
      ((Statements.cons first others).code environment label number))
    (ran : ∀ {start : Nat}, Embedded program start (first.code environment label number) →
      Moves routines program start (start + (first.code environment label number).length) start
        before (start + (first.code environment label number).length) middle)
    (rest : ∀ {start : Nat},
      Embedded program start (others.code environment label (number + first.labelCount)) →
      Reaches routines program start
        (start + (others.code environment label (number + first.labelCount)).length) start middle
        outcome) :
    Reaches routines program position
      (position + ((Statements.cons first others).code environment label number).length) position
      before outcome := by
  rw [Statements.code, List.length_append, ← Nat.add_assoc]
  have last := (rest embedded.right).within (Nat.le_add_right _ _) (Nat.le_refl _)
    fun after _ stack that temp => ⟨0, that, temp, .stay _⟩
  exact (Moves.widen (ran embedded.left) (Nat.le_refl _) (Nat.le_add_right _ _)).reaches last

/-- Where the first statement returns, the code of all returns the same word. -/
theorem reaches_stop {first : Statement} {others : Statements} {number position : Nat}
    {word : Word}
    (embedded : Embedded program position
      ((Statements.cons first others).code environment label number))
    (ran : ∀ {start : Nat}, Embedded program start (first.code environment label number) →
      Returns routines program start (start + (first.code environment label number).length) start
        before word after) :
    Returns routines program position
      (position + ((Statements.cons first others).code environment label number).length) position
      before word after := by
  rw [Statements.code, List.length_append]
  exact (ran embedded.left).widen (Nat.le_refl _) (by omega)

mutual

/-- Wherever the code of a statement is embedded, the machine follows every run of the statement. -/
theorem Grammar.Statement.Runs.reaches (placed : environment.Placed) :
    ∀ {tree : Statement} {before : Memory} {outcome : Outcome},
      tree.Runs routines environment before outcome → ∀ {number position : Nat},
      (∀ demand ∈ tree.demands environment, demand.Met environment) →
      Embedded program position (tree.code environment label number) →
      Reaches routines program position (position + (tree.code environment label number).length)
        position before outcome
  | _, _, _, .assign evaluated, _, _, met, embedded =>
      (turns_assign placed met evaluated).moves embedded.holds
  | _, _, _, .assignElement indexed evaluated, _, _, met, embedded =>
      (turns_assignElement placed met indexed evaluated).moves embedded.holds
  | _, _, _, .chosen holds run, _, _, met, embedded => by
      obtain ⟨metBoth, _⟩ := List.forall_mem_append.1 met
      obtain ⟨metTest, metBody⟩ := List.forall_mem_append.1 metBoth
      exact reaches_chosen embedded (holds.turns placed metTest) (run.reaches placed metBody)
  | _, _, _, .passed evaluated fails run, _, _, met, embedded => by
      obtain ⟨metBoth, metAlternative⟩ := List.forall_mem_append.1 met
      obtain ⟨metTest, _⟩ := List.forall_mem_append.1 metBoth
      exact reaches_passed embedded (evaluated.turns placed metTest) fails
        (run.reaches placed metAlternative)
  | _, _, _, .left evaluated fails, _, _, met, embedded => by
      obtain ⟨metTest, _⟩ := List.forall_mem_append.1 met
      exact reaches_left embedded (evaluated.turns placed metTest) fails
  | _, _, _, .repeated holds round rest, _, _, met, embedded => by
      obtain ⟨metTest, metBody⟩ := List.forall_mem_append.1 met
      exact reaches_round embedded (holds.turns placed metTest) (round.reaches placed metBody)
        (rest.reaches placed met embedded)
  | _, _, _, .broken holds round, _, _, met, embedded => by
      obtain ⟨metTest, metBody⟩ := List.forall_mem_append.1 met
      exact reaches_round embedded (holds.turns placed metTest) (round.reaches placed metBody) rfl
  | _, _, _, .perform, _, _, met, embedded => (turns_perform placed met).moves embedded.holds
  | _, _, _, .returnZero, _, _, _, embedded => (turns_constant 0).returns embedded.holds
  | _, _, _, .returnValue evaluated, _, _, met, embedded =>
      (evaluated.turns placed met).returns embedded.holds

/-- The code of statements reaches the outcome of their run. -/
theorem Grammar.Statements.Runs.reaches (placed : environment.Placed) :
    ∀ {tree : Statements} {before : Memory} {outcome : Outcome},
      tree.Runs routines environment before outcome → ∀ {number position : Nat},
      (∀ demand ∈ tree.demands environment, demand.Met environment) →
      Embedded program position (tree.code environment label number) →
      Reaches routines program position (position + (tree.code environment label number).length)
        position before outcome
  | _, _, _, .nil, _, _, _, embedded => (Turns.nil [] _).moves embedded.holds
  | _, _, _, .next run rest, _, _, met, embedded => by
      obtain ⟨metFirst, metOthers⟩ := List.forall_mem_append.1 met
      exact reaches_next embedded (run.reaches placed metFirst) (rest.reaches placed metOthers)
  | _, _, _, .stop run, _, _, met, embedded => by
      obtain ⟨metFirst, _⟩ := List.forall_mem_append.1 met
      exact reaches_stop embedded (run.reaches placed metFirst)

/-- The code of an alternative reaches the outcome of its run. -/
theorem Grammar.Alternative.Runs.reaches (placed : environment.Placed) :
    ∀ {tree : Alternative} {before : Memory} {outcome : Outcome},
      tree.Runs routines environment before outcome → ∀ {number position : Nat},
      (∀ demand ∈ tree.demands environment, demand.Met environment) →
      Embedded program position (tree.code environment label number) →
      Reaches routines program position (position + (tree.code environment label number).length)
        position before outcome
  | _, _, _, .absent, _, _, _, embedded => (Turns.nil [] _).moves embedded.holds
  | _, _, _, .present run, _, _, met, embedded => run.reaches placed met embedded

end

end Statements

end JackCompiler
