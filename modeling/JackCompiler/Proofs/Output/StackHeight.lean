import JackCompiler.Proofs.Generation.Labels
import JackCompiler.Proofs.Output.Block
import Mathlib.Algebra.BigOperators.Group.List.Basic
import Mathlib.Algebra.Ring.Int.Defs

/-!
# The height of the operand stack

How many operands of a subroutine are on the stack at each of its instructions, read off the text of
the code: every instruction changes the height by a fixed number. `Levels` says that this is the
height with which control arrives, wherever it comes from, and that no instruction lacks operands.

Heights are integers where they are summed up and natural numbers where code is followed from a
height that is known to suffice (`Climbs`); expressions are followed from any height, since operands
of the expressions around them may be waiting below.
-/

namespace JackCompiler

open Grammar

/-! ## Heights -/

namespace StackCommand

/-- How many words a command takes from the stack. It leaves one. -/
def operands : StackCommand → Nat
  | neg | not => 1
  | add | sub | eq | gt | lt | and | or => 2

end StackCommand

namespace Instruction

/-- How many words an instruction takes from the stack. -/
def operands : Instruction → Nat
  | .push _ _ | .label _ | .goto _ | .function _ _ => 0
  | .pop _ _ | .ifGoto _ | .return => 1
  | .command operation => operation.operands
  | .call _ arguments => arguments.toNat

/-- How many words an instruction leaves on the stack. -/
def results : Instruction → Nat
  | .push _ _ | .command _ | .call _ _ => 1
  | .pop _ _ | .label _ | .goto _ | .ifGoto _ | .function _ _ | .return => 0

/-- By how much an instruction changes the height of the stack. -/
def heightChange (instruction : Instruction) : Int := instruction.results - instruction.operands

/-- Whether control may go on from an instruction to the next. -/
def continues : Instruction → Bool
  | .goto _ | .return => false
  | _ => true

end Instruction

/-- The height in front of a position, by the text from the start on. -/
def heightAt (code : List Instruction) (position : Nat) : Int :=
  ((code.take position).map Instruction.heightChange).sum

variable {code first second : List Instruction} {instruction : Instruction} {position : Nat}

@[simp] theorem heightAt_zero : heightAt code 0 = 0 := rfl

/-- An instruction changes the height by what it pushes less what it pops. -/
theorem heightAt_succ (found : code[position]? = some instruction) :
    heightAt code (position + 1) = heightAt code position + instruction.heightChange := by
  simp [heightAt, List.take_add_one, found]

/-- How control can arrive at a position of a subroutine, and the height that the instructions on
the way make up. -/
inductive Arrives (code : List Instruction) : Nat → Int → Prop
  | start : Arrives code 0 0
  | next {position : Nat} {height : Int} {instruction : Instruction}
      (before : Arrives code position height) (found : code[position]? = some instruction)
      (continues : instruction.continues) :
      Arrives code (position + 1) (height + instruction.heightChange)
  | jump {position destination : Nat} {height : Int} {instruction : Instruction} {label : Label}
      (before : Arrives code position height) (found : code[position]? = some instruction)
      (target : instruction.target? = some label)
      (defined : code[destination]? = some (.label label)) :
      Arrives code destination (height + instruction.heightChange)

/-- The rules for the heights in a subroutine. -/
structure Levels (code : List Instruction) : Prop where
  operands : ∀ {position instruction}, code[position]? = some instruction →
    instruction.operands ≤ heightAt code position
  label : ∀ {position label}, code[position]? = some (.label label) → heightAt code position = 0
  goto : ∀ {position label}, code[position]? = some (.goto label) → heightAt code position = 0
  ifGoto : ∀ {position label}, code[position]? = some (.ifGoto label) →
    heightAt code (position + 1) = 0
  «return» : ∀ {position}, code[position]? = some .return → heightAt code position = 1
  ending : heightAt code code.length = 0

/-- Where the rules are kept, a position has one height, however control arrives. -/
theorem Levels.height_unique (levels : Levels code) {height : Int}
    (arrives : Arrives code position height) : height = heightAt code position := by
  induction arrives with
  | start => rfl
  | next before found continues inductionHypothesis =>
      rw [heightAt_succ found, inductionHypothesis]
  | jump before found target defined inductionHypothesis =>
      -- Both ends of a jump are at height zero, whatever lies between them.
      rw [levels.label defined, inductionHypothesis, ← heightAt_succ found]
      rename_i instruction _
      cases instruction with
      | goto label => rw [heightAt_succ found, levels.goto found]; rfl
      | ifGoto label => exact levels.ifGoto found
      | _ => cases target

/-! ## Following code from a height -/

/-- Whether an instruction may be met at a height. -/
def Instruction.MayStandAt (height : Nat) (instruction : Instruction) : Prop :=
  instruction.operands ≤ height ∧
    match instruction with
    | .label _ | .goto _ => height = 0
    | .ifGoto _ | .return => height = 1
    | _ => True

/-- Code that can be followed from one height to another. -/
inductive Climbs : Nat → List Instruction → Nat → Prop
  | nil (height : Nat) : Climbs height [] height
  | cons {height final : Nat} {instruction : Instruction} {others : List Instruction}
      (stands : instruction.MayStandAt height)
      (climbs : Climbs (height - instruction.operands + instruction.results) others final) :
      Climbs height (instruction :: others) final

namespace Climbs

variable {height middle final : Nat}

/-- Code climbs from one height to another by way of any height between. -/
theorem append (one : Climbs height first middle) (two : Climbs middle second final) :
    Climbs height (first ++ second) final := by
  induction one with
  | nil => exact two
  | cons stands _ inductionHypothesis => exact .cons stands (inductionHypothesis two)

/-- A single instruction climbs if it may stand at the height. -/
theorem single (stands : instruction.MayStandAt height)
    (changes : height - instruction.operands + instruction.results = final) :
    Climbs height [instruction] final :=
  .cons stands (changes ▸ .nil _)

/-- Code that is followed to some place arrives there with the height that its text makes up. -/
theorem heightAt_add (climbs : Climbs height code final) :
    ∀ {position instruction}, code[position]? = some instruction →
      ∃ here : Nat, instruction.MayStandAt here ∧
        (here : Int) = height + heightAt code position := by
  induction climbs with
  | nil => simp
  | @cons height final head others stands _ inductionHypothesis =>
      intro position instruction found
      cases position with
      | zero =>
          rw [List.getElem?_cons_zero, Option.some.injEq] at found
          subst found
          exact ⟨height, stands, by simp⟩
      | succ position =>
          obtain ⟨here, standsHere, same⟩ := inductionHypothesis found
          refine ⟨here, standsHere, ?_⟩
          have enough := stands.1
          simp only [heightAt, List.take_succ_cons, List.map_cons, List.sum_cons,
            Instruction.heightChange] at same ⊢
          omega

/-- Code that climbs to a height changes it by the sum over its instructions. -/
theorem heightAt_length (climbs : Climbs height code final) :
    (final : Int) = height + heightAt code code.length := by
  induction climbs with
  | nil => simp [heightAt]
  | cons stands _ inductionHypothesis =>
      have enough := stands.1
      simp only [heightAt, List.length_cons, List.take_succ_cons, List.map_cons, List.sum_cons,
        Instruction.heightChange] at inductionHypothesis ⊢
      omega

/-- Code that can be followed from an empty stack to an empty stack keeps all rules. -/
theorem levels (climbs : Climbs 0 code 0) : Levels code where
  operands := by
    intro position instruction found
    obtain ⟨here, stands, same⟩ := climbs.heightAt_add found
    have enough := stands.1
    omega
  label := by
    intro position label found
    obtain ⟨here, ⟨_, empty⟩, same⟩ := climbs.heightAt_add found
    simp only at empty
    omega
  goto := by
    intro position label found
    obtain ⟨here, ⟨_, empty⟩, same⟩ := climbs.heightAt_add found
    simp only at empty
    omega
  ifGoto := by
    intro position label found
    obtain ⟨here, ⟨_, one⟩, same⟩ := climbs.heightAt_add found
    simp only at one
    rw [heightAt_succ found]
    simp only [Instruction.heightChange, Instruction.results, Instruction.operands]
    omega
  «return» := by
    intro position found
    obtain ⟨here, ⟨_, one⟩, same⟩ := climbs.heightAt_add found
    simp only at one
    omega
  ending := by
    have same := climbs.heightAt_length
    omega

end Climbs

/-! ## The code of trees -/

section Expressions

variable {environment : Environment} {height : Nat}

/-- Pushing climbs by one. -/
theorem climbs_push (segment : Segment) (index : UInt16) :
    Climbs height [.push segment index] (height + 1) :=
  .single ⟨Nat.zero_le _, trivial⟩ rfl

/-- Popping goes down by one. -/
theorem climbs_pop (segment : Segment) (index : UInt16) :
    Climbs (height + 1) [.pop segment index] height :=
  .single ⟨Nat.le_add_left _ _, trivial⟩ rfl

/-- A command of two operands leaves one word for both. -/
theorem climbs_binary (operation : StackCommand) (two : operation.operands = 2) :
    Climbs (height + 2) [.command operation] (height + 1) := by
  refine .single ⟨?_, trivial⟩ ?_ <;>
    simp [Instruction.operands, Instruction.results, two]

/-- A command of one operand leaves one word for it. -/
theorem climbs_unary (operation : StackCommand) (one : operation.operands = 1) :
    Climbs (height + 1) [.command operation] (height + 1) := by
  refine .single ⟨?_, trivial⟩ ?_ <;>
    simp [Instruction.operands, Instruction.results, one]

/-- A call takes as many words as its operand says. -/
theorem climbs_call (name : String) {count : UInt16} {top : Nat}
    (counted : top = height + count.toNat) : Climbs top [.call name count] (height + 1) := by
  subst counted
  exact .single ⟨Nat.le_add_left _ _, trivial⟩ (by simp [Instruction.operands, Instruction.results])

/-- Binary operators leave one word for two. -/
theorem climbs_binaryOperator (operator : BinaryOperator) :
    Climbs (height + 2) [operator.instruction] (height + 1) := by
  cases operator with
  | mul | div => exact climbs_call _ rfl
  | _ => exact climbs_binary _ rfl

/-- Unary operators leave one word for one. -/
theorem climbs_unaryOperator (operator : UnaryOperator) :
    Climbs (height + 1) [operator.instruction] (height + 1) := by
  cases operator <;> exact climbs_unary _ rfl

/-- Constants climb by one. -/
theorem climbs_constant (value : KeywordConstant) :
    Climbs height value.instructions (height + 1) := by
  cases value with
  | true => exact (climbs_push .constant 1).append (climbs_unary .neg rfl)
  | false | null => exact climbs_push .constant 0
  | this => exact climbs_push .pointer 0

/-- The string that is built stays on the stack while characters are appended to it. -/
theorem climbs_characters (characters : List UInt8) :
    Climbs (height + 1) (characters.flatMap Code.appendCharacter) (height + 1) := by
  induction characters with
  | nil => exact .nil _
  | cons character others inductionHypothesis =>
      have appended : Climbs (height + 1) (Code.appendCharacter character) (height + 1) :=
        (climbs_push .constant character.toUInt16).append (climbs_call _ rfl)
      exact appended.append inductionHypothesis

/-- A string constant climbs by one: each character is appended to the string that is left. -/
theorem climbs_string (contents : String) :
    Climbs height (stringCode contents) (height + 1) := by
  have made : Climbs height [.push .constant (UInt16.ofNat contents.utf8ByteSize),
      .call Library.newString 1] (height + 1) :=
    (climbs_push _ _).append (climbs_call _ rfl)
  exact made.append (climbs_characters _)

/-- Loading a visible name climbs by one. -/
theorem climbs_load {name : String} (visible : Demand.Met environment (.visible name)) :
    Climbs height (environment.load name) (height + 1) := by
  obtain ⟨place, found⟩ := Option.isSome_iff_exists.1 visible
  unfold Environment.load
  rw [found]
  exact climbs_push _ _

/-- Storing to a visible name goes down by one. -/
theorem climbs_store {name : String} (visible : Demand.Met environment (.visible name)) :
    Climbs (height + 1) (environment.store name) height := by
  obtain ⟨place, found⟩ := Option.isSome_iff_exists.1 visible
  unfold Environment.store
  rw [found]
  exact climbs_pop _ _

mutual

/-- The code of an expression adds one word to the stack. -/
theorem Grammar.Expression.climbs (tree : Expression)
    (met : ∀ demand ∈ tree.demands environment, demand.Met environment) (height : Nat) :
    Climbs height (tree.code environment) (height + 1) := by
  cases tree with
  | mk first others =>
      obtain ⟨metFirst, metOthers⟩ := List.forall_mem_append.1 met
      exact (first.climbs metFirst height).append (others.climbs metOthers height)

/-- The code of operands leaves one word for the word it finds. -/
theorem Grammar.Operands.climbs (tree : Operands)
    (met : ∀ demand ∈ tree.demands environment, demand.Met environment) (height : Nat) :
    Climbs (height + 1) (tree.code environment) (height + 1) := by
  cases tree with
  | nil => exact .nil _
  | cons operator operand others =>
      obtain ⟨metOperand, metOthers⟩ := List.forall_mem_append.1 met
      have joined :=
        (operand.climbs metOperand (height + 1)).append (climbs_binaryOperator operator)
      exact joined.append (others.climbs metOthers height)

/-- The code of a term climbs by one. -/
theorem Grammar.Term.climbs (tree : Term)
    (met : ∀ demand ∈ tree.demands environment, demand.Met environment) (height : Nat) :
    Climbs height (tree.code environment) (height + 1) := by
  cases tree with
  | integer value => exact climbs_push .constant value
  | string contents => exact climbs_string contents
  | constant value => exact climbs_constant value
  | name text => exact climbs_load (met _ List.mem_cons_self)
  | element array index =>
      obtain ⟨visible, metIndex⟩ := List.forall_mem_cons.1 met
      have address := (climbs_load visible).append (index.climbs metIndex (height + 1))
      exact address.append ((climbs_binary .add rfl).append
        ((climbs_pop .pointer 1).append (climbs_push .that 0)))
  | call call => exact call.climbs met height
  | group inner => exact inner.climbs met height
  | unary operator operand =>
      exact (operand.climbs met height).append (climbs_unaryOperator operator)

/-- The code of a call climbs by one, for a call leaves one word for all its arguments. -/
theorem Grammar.Call.climbs (tree : Call)
    (met : ∀ demand ∈ tree.demands environment, demand.Met environment) (height : Nat) :
    Climbs height (tree.code environment) (height + 1) := by
  cases tree with
  | own subroutine arguments =>
      obtain ⟨metArguments, countable⟩ := List.forall_mem_append.1 met
      have passed := (climbs_push .pointer 0).append
        (arguments.climbs metArguments (height + 1))
      refine passed.append (climbs_call _ ?_)
      rw [toNat_count (countable _ List.mem_cons_self)]
      omega
  | qualified owner subroutine arguments =>
      obtain ⟨metArguments, countable⟩ := List.forall_mem_append.1 met
      have countable := countable _ List.mem_cons_self
      rw [Call.code]
      cases found : environment.place? owner with
      | some receiver =>
          have passed := (climbs_push receiver.segment receiver.index).append
            (arguments.climbs metArguments (height + 1))
          refine passed.append (climbs_call _ ?_)
          rw [found, Option.isSome_some, if_pos rfl] at countable
          rw [toNat_count countable]
          omega
      | none =>
          refine (arguments.climbs metArguments height).append (climbs_call _ ?_)
          rw [found, Option.isSome_none, if_neg Bool.false_ne_true, Nat.add_zero] at countable
          rw [toNat_count countable]

/-- The code of arguments adds one word for each of them. -/
theorem Grammar.Arguments.climbs (tree : Arguments)
    (met : ∀ demand ∈ tree.demands environment, demand.Met environment) (height : Nat) :
    Climbs height (tree.code environment) (height + tree.count) := by
  cases tree with
  | nil => exact .nil _
  | cons first others =>
      obtain ⟨metFirst, metOthers⟩ := List.forall_mem_append.1 met
      have whole := (first.climbs metFirst height).append (others.climbs metOthers (height + 1))
      rwa [Nat.add_assoc, Nat.add_comm 1] at whole

end

end Expressions

section Statements

variable {environment : Environment} {label : Nat → Label}

/-- A label stands where the stack is empty. -/
theorem climbs_label (label : Label) : Climbs 0 [.label label] 0 :=
  .single ⟨Nat.le_refl _, rfl⟩ rfl

/-- A jump stands where the stack is empty. -/
theorem climbs_goto (label : Label) : Climbs 0 [.goto label] 0 :=
  .single ⟨Nat.le_refl _, rfl⟩ rfl

/-- A return stands where one word is on the stack. -/
theorem climbs_return : Climbs 1 [.return] 0 :=
  .single ⟨Nat.le_refl _, rfl⟩ rfl

/-- The code of a condition with the jump that takes its value. -/
theorem climbs_test (test : Expression)
    (met : ∀ demand ∈ test.demands environment, demand.Met environment) (label : Label) :
    Climbs 0 (test.code environment ++ [.command .not, .ifGoto label]) 0 := by
  have jump : Climbs 1 [.ifGoto label] 0 := .single ⟨Nat.le_refl _, rfl⟩ rfl
  exact (test.climbs met 0).append ((climbs_unary .not rfl).append jump)

mutual

/-- The code of a statement starts and ends with no operands. -/
theorem Grammar.Statement.climbs (tree : Statement)
    (met : ∀ demand ∈ tree.demands environment, demand.Met environment) (number : Nat) :
    Climbs 0 (tree.code environment label number) 0 := by
  cases tree with
  | assign target value =>
      obtain ⟨visible, metValue⟩ := List.forall_mem_cons.1 met
      exact (value.climbs metValue 0).append (climbs_store visible)
  | assignElement array index value =>
      obtain ⟨visible, metParts⟩ := List.forall_mem_cons.1 met
      obtain ⟨metIndex, metValue⟩ := List.forall_mem_append.1 metParts
      have address := ((climbs_load visible).append (index.climbs metIndex 1)).append
        (climbs_binary .add rfl)
      have computed := address.append (value.climbs metValue 1)
      -- The value is set aside while its address is installed.
      have stored : Climbs 2 [.pop .temp 0, .pop .pointer 1, .push .temp 0, .pop .that 0] 0 :=
        (climbs_pop _ _).append ((climbs_pop _ _).append
          ((climbs_push _ _).append (climbs_pop _ _)))
      exact computed.append stored
  | choice test body alternative =>
      obtain ⟨metParts, metAlternative⟩ := List.forall_mem_append.1 met
      obtain ⟨metTest, metBody⟩ := List.forall_mem_append.1 metParts
      have chosen := (climbs_test test metTest (label number)).append
        (body.climbs metBody (number + 2))
      have passed := chosen.append ((climbs_goto (label (number + 1))).append
        (climbs_label (label number)))
      exact (passed.append (alternative.climbs metAlternative _)).append (climbs_label _)
  | loop test body =>
      obtain ⟨metTest, metBody⟩ := List.forall_mem_append.1 met
      have entered := (climbs_label (label number)).append
        (climbs_test test metTest (label (number + 1)))
      have round := entered.append (body.climbs metBody (number + 2))
      have whole := round.append ((climbs_goto (label number)).append
        (climbs_label (label (number + 1))))
      simpa [Statement.code] using whole
  | perform call => exact (call.climbs met 0).append (climbs_pop .temp 0)
  | «return» value =>
      cases value with
      | none => exact (climbs_push .constant 0).append climbs_return
      | some value => exact (value.climbs met 0).append climbs_return

/-- The code of statements begins and ends with the stack empty. -/
theorem Grammar.Statements.climbs (tree : Statements)
    (met : ∀ demand ∈ tree.demands environment, demand.Met environment) (number : Nat) :
    Climbs 0 (tree.code environment label number) 0 := by
  cases tree with
  | nil => exact .nil 0
  | cons first others =>
      obtain ⟨metFirst, metOthers⟩ := List.forall_mem_append.1 met
      exact (first.climbs metFirst number).append (others.climbs metOthers _)

/-- The code of an alternative begins and ends with the stack empty. -/
theorem Grammar.Alternative.climbs (tree : Alternative)
    (met : ∀ demand ∈ tree.demands environment, demand.Met environment) (number : Nat) :
    Climbs 0 (tree.code environment label number) 0 := by
  cases tree with
  | absent => exact .nil 0
  | present body => exact body.climbs met number

end

/-- The prologue of a subroutine begins and ends with the stack empty. -/
theorem climbs_prologue (kind : SubroutineKind) (fieldCount : Nat) :
    Climbs 0 (kind.prologue fieldCount) 0 := by
  cases kind with
  | constructor =>
      have allocated : Climbs 1 [.call Library.allocate 1] 1 := climbs_call _ rfl
      exact (climbs_push .constant _).append (allocated.append (climbs_pop .pointer 0))
  | function => exact .nil 0
  | method => exact (climbs_push .argument 0).append (climbs_pop .pointer 0)

/-- The block of a subroutine whose demands are met keeps the rules for heights. -/
theorem Grammar.Subroutine.Admissible.levels {className : String}
    {ofClass : List (Declaration ClassStorage)} {subroutine : Subroutine}
    (admissible : subroutine.Admissible className ofClass) (number : Nat) :
    Levels (subroutine.block className ofClass label number).body :=
  ((climbs_prologue subroutine.kind _).append
    (subroutine.body.climbs admissible.demands number)).levels

end Statements

/-! ## Compiled units -/

/-- All code of a compiled unit is in blocks, and in every block the height of the stack is a matter
of the text alone: the rules for heights are kept, and control arrives at each position with the
height that the text in front of it makes up, so every instruction finds its operands on every
path. -/
theorem compile_stack_discipline {σ : Type} [LabelSource σ] {start labels : σ}
    {unit source : String} {compiled : CompiledUnit}
    (fits : source.utf8ByteSize ≤ Span.maxOffset)
    (success : compile start unit source = (.ok compiled, labels)) :
    (blocks compiled.code.toList).flatMap Block.instructions = compiled.code.toList ∧
    ∀ block ∈ blocks compiled.code.toList,
      Levels block.body ∧
      ∀ {position : Nat} {height : Int}, Arrives block.body position height →
        height = heightAt block.body position ∧
        ∀ instruction, block.body[position]? = some instruction →
          instruction.operands ≤ height := by
  obtain ⟨whole, tree, _, admissible, belong⟩ :=
    blocks_of_compile (LabelSource.numbering start) fits (LabelSource.numbering_stands start)
      success
  suffices levels : ∀ block ∈ blocks compiled.code.toList, Levels block.body by
    refine ⟨whole, ?_⟩
    intro block member
    have levels := levels block member
    refine ⟨levels, ?_⟩
    intro position height arrives
    have same := levels.height_unique arrives
    refine ⟨same, ?_⟩
    intro instruction found
    rw [same]
    exact levels.operands found
  refine forall_block belong ?_
  rintro block subroutine ⟨member, number, rfl⟩
  exact (admissible.subroutines subroutine member).levels number

/-- In front of the last factor three words wait: the object, an argument and the factor before. -/
theorem compile_stack_discipline_of_call :
    ∃ (source : String) (compiled : CompiledUnit) (block : Block),
      source.utf8ByteSize ≤ Span.maxOffset ∧
      compile (⟨7⟩ : LabelCounter) "A" source = (.ok compiled, ⟨9⟩) ∧
      block ∈ blocks compiled.code.toList ∧ Levels block.body ∧
      ∀ height : Int, Arrives block.body 4 height → height = 3 := by
  let source := "class A{function int f(){while(g(1,2*3)){}return 4;}}"
  let body : List Instruction := [.label ⟨7⟩, .push .pointer 0, .push .constant 1,
    .push .constant 2, .push .constant 3, .call Library.multiply 2, .call "A.g" 3, .command .not,
    .ifGoto ⟨8⟩, .goto ⟨7⟩, .label ⟨8⟩, .push .constant 4, .return]
  have fits : source.utf8ByteSize ≤ Span.maxOffset := by decide +kernel
  have success : compile (⟨7⟩ : LabelCounter) "A" source =
      (.ok ⟨"A", .ofList (.function "A.f" 0 :: body)⟩, ⟨9⟩) := by
    decide +kernel
  have member : ⟨"A.f", 0, body⟩ ∈ blocks (Code.ofList (.function "A.f" 0 :: body)).toList := by
    rw [Code.toList_ofList]
    exact List.mem_cons_self
  obtain ⟨levels, unique⟩ := (compile_stack_discipline fits success).2 _ member
  refine ⟨source, _, _, fits, success, member, levels, ?_⟩
  intro height arrives
  exact (unique arrives).1

end JackCompiler
