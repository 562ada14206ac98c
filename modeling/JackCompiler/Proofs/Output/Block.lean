import JackCompiler.Proofs.Generation.Instructions
import JackCompiler.Proofs.Recognition.Agreement
import Mathlib.Data.List.Forall2

/-!
# Blocks

Code is parted into blocks at the heads of its subroutines. A block is found by looking at the
instructions alone; that the blocks of the code of a class belong to its subroutines, one to each
and in order, is what a statement about every block of some output rests on.
-/

namespace JackCompiler

open Grammar

namespace Instruction

/-- Whether a subroutine starts with an instruction. -/
def isHead : Instruction → Bool
  | .function .. => true
  | _ => false

end Instruction

/-- A head and the instructions behind it, up to the next head. -/
structure Block where
  name : String
  /-- The operand of the head. -/
  locals : UInt16
  body : List Instruction

namespace Block

/-- The instructions of a block with its head. -/
def instructions (block : Block) : List Instruction :=
  .function block.name block.locals :: block.body

end Block

/-- The blocks of code in order. What stands in front of the first head is in none of them. -/
def blocks : List Instruction → List Block
  | [] => []
  | .function name locals :: others =>
      ⟨name, locals, others.takeWhile fun instruction => !instruction.isHead⟩ :: blocks others
  | _ :: others => blocks others

/-- The blocks of code are all that stands from its first head on. -/
theorem flatMap_blocks (code : List Instruction) :
    (blocks code).flatMap Block.instructions =
      code.dropWhile fun instruction => !instruction.isHead := by
  induction code with
  | nil => rfl
  | cons first others inductionHypothesis =>
      cases first with
      | function name locals =>
          rw [blocks, List.flatMap_cons, inductionHypothesis, Block.instructions, List.cons_append,
            List.takeWhile_append_dropWhile]
          rfl
      | _ => exact inductionHypothesis

/-- Instructions without a head lie in the block before them. -/
theorem blocks_append {bare : List Instruction}
    (none : ∀ instruction ∈ bare, instruction.isHead = false) (rest : List Instruction) :
    blocks (bare ++ rest) = blocks rest := by
  induction bare with
  | nil => rfl
  | cons first others inductionHypothesis =>
      obtain ⟨noHead, none⟩ := List.forall_mem_cons.1 none
      rw [← inductionHypothesis none]
      cases first with
      | function name locals => cases noHead
      | _ => rfl

/-- A block goes on up to the next head. -/
theorem blocks_instructions {block : Block} {rest : List Instruction}
    (bare : ∀ instruction ∈ block.body, instruction.isHead = false)
    (next : ∀ instruction ∈ rest.head?, instruction.isHead = true) :
    blocks (block.instructions ++ rest) = block :: blocks rest := by
  have ended : rest.takeWhile (fun instruction => !instruction.isHead) = [] := by
    cases rest with
    | nil => rfl
    | cons first others => simp [next first rfl]
  have whole : (block.body ++ rest).takeWhile (fun instruction => !instruction.isHead) =
      block.body := by
    rw [List.takeWhile_append_of_pos (by simpa using bare), ended, List.append_nil]
  rw [Block.instructions, List.cons_append, blocks, whole, blocks_append bare]

/-- What holds of each block that belongs to something holds of all blocks. -/
theorem forall_block {α : Type} {Belongs : Block → α → Prop} {Holds : Block → Prop}
    {all : List Block} {owners : List α} (belong : List.Forall₂ Belongs all owners)
    (holds : ∀ block owner, Belongs block owner → Holds block) : ∀ block ∈ all, Holds block := by
  induction belong with
  | nil => exact List.forall_mem_nil _
  | cons belongs _ inductionHypothesis =>
      exact List.forall_mem_cons.2 ⟨holds _ _ belongs, inductionHypothesis⟩

namespace Grammar

section Classes

variable (className : String) (ofClass : List (Declaration ClassStorage)) (label : Nat → Label)

/-- The block of a subroutine whose first label has the given number. -/
def Subroutine.block (number : Nat) (subroutine : Subroutine) : Block where
  name := className ++ "." ++ subroutine.name
  locals := UInt16.ofNat subroutine.localDeclarations.length
  body := subroutine.kind.prologue (Declaration.count ofClass .field) ++
    subroutine.body.code (subroutine.environment className ofClass) label number

theorem Subroutine.code_eq (number : Nat) (subroutine : Subroutine) :
    subroutine.code className ofClass label number =
      (subroutine.block className ofClass label number).instructions := by
  rw [Subroutine.code, List.append_assoc]
  rfl

theorem Statements.not_head (tree : Statements) (environment : Environment) (number : Nat) :
    ∀ instruction ∈ tree.code environment label number, instruction.isHead = false := by
  intro instruction member
  have names : NamesIn (fun _ => True) tree.yield := fun _ _ => trivial
  cases tree.consists environment names number instruction member with
  | expression within => cases within <;> rfl
  | _ => rfl

theorem SubroutineKind.not_head (kind : SubroutineKind) (fieldCount : Nat) :
    ∀ instruction ∈ kind.prologue fieldCount, instruction.isHead = false := by
  cases kind <;> simp [SubroutineKind.prologue, Instruction.isHead]

/-- The code of subroutines is empty or starts with a head. -/
theorem isHead_subroutinesCode (number : Nat) (subroutines : List Subroutine) :
    ∀ instruction ∈ (subroutinesCode className ofClass label number subroutines).head?,
      instruction.isHead = true := by
  cases subroutines with
  | nil => simp [subroutinesCode]
  | cons first others => simp [subroutinesCode, Subroutine.code, Instruction.isHead]

/-- All code of subroutines is in blocks. -/
theorem flatMap_blocks_subroutinesCode (number : Nat) (subroutines : List Subroutine) :
    (blocks (subroutinesCode className ofClass label number subroutines)).flatMap
      Block.instructions = subroutinesCode className ofClass label number subroutines := by
  rw [flatMap_blocks]
  have first := isHead_subroutinesCode className ofClass label number subroutines
  cases code : subroutinesCode className ofClass label number subroutines with
  | nil => rfl
  | cons head others => simp [first head (by rw [code]; rfl)]

/-- The blocks in the code of subroutines are those of the subroutines, each with labels of its
own. -/
theorem blocks_subroutinesCode (number : Nat) (subroutines : List Subroutine) :
    List.Forall₂
      (fun block subroutine => subroutine ∈ subroutines ∧ ∃ first, number ≤ first ∧
        first + subroutine.body.labelCount ≤ number + labelCount subroutines ∧
        block = subroutine.block className ofClass label first)
      (blocks (subroutinesCode className ofClass label number subroutines)) subroutines := by
  induction subroutines generalizing number with
  | nil => exact .nil
  | cons subroutine others inductionHypothesis =>
      have bare : ∀ instruction ∈ (subroutine.block className ofClass label number).body,
          instruction.isHead = false :=
        List.forall_mem_append.2
          ⟨subroutine.kind.not_head _, subroutine.body.not_head label _ number⟩
      have next := isHead_subroutinesCode className ofClass label
        (number + subroutine.body.labelCount) others
      rw [subroutinesCode, Subroutine.code_eq, blocks_instructions bare next, labelCount]
      refine .cons ⟨List.mem_cons_self, number, Nat.le_refl _, by omega, rfl⟩ ?_
      refine (inductionHypothesis (number + subroutine.body.labelCount)).imp ?_
      rintro block other ⟨member, first, above, below, same⟩
      exact ⟨List.mem_cons_of_mem _ member, first, by omega, by omega, same⟩

end Classes

end Grammar

section Compilers

variable {σ : Type} [LabelSource σ] (numbering : LabelSource.Numbering σ) {number : Nat}
  {start labels : σ} {unit source : String} {compiled : CompiledUnit}

/-- The blocks of a compiled unit are those of the subroutines in the tree of its source, and all
its code is in blocks. -/
theorem blocks_of_compile (fits : source.utf8ByteSize ≤ Span.maxOffset)
    (stands : numbering.Stands number start)
    (success : compile start unit source = (.ok compiled, labels)) :
    (blocks compiled.code.toList).flatMap Block.instructions = compiled.code.toList ∧
    ∃ tree : ClassDeclaration, tree.IsTreeOf source ∧ tree.Admissible ∧
      List.Forall₂
        (fun block subroutine => subroutine ∈ tree.subroutines ∧ ∃ first,
          block = subroutine.block tree.name tree.declarations numbering.label first)
        (blocks compiled.code.toList) tree.subroutines := by
  obtain ⟨tree, isTree, admissible, _, isCode, _⟩ := tree_of_compile numbering fits stands success
  rw [isCode]
  refine ⟨flatMap_blocks_subroutinesCode .., tree, isTree, admissible, ?_⟩
  refine (blocks_subroutinesCode tree.name tree.declarations numbering.label number
    tree.subroutines).imp ?_
  rintro block subroutine ⟨member, first, _, _, same⟩
  exact ⟨member, first, same⟩

end Compilers

end JackCompiler
