import JackCompiler.Compiler
import JackCompiler.Proofs.Grammar.Unambiguous
import JackCompiler.Proofs.Lexing.Legible
import JackCompiler.Proofs.Recognition.ClassSound
import Mathlib.Data.List.Basic

/-!
# One pass agrees with two phases

What the compiler yields in one pass is what a tree and the code of that tree say: the tree of a
source is the one whose yield are the tokens of the source, and there is no more than one.
-/

namespace JackCompiler

open Grammar

/-- The tokens of a source, to the last one, are the yield of a tree. -/
def Grammar.ClassDeclaration.IsTreeOf (tree : ClassDeclaration) (source : String) : Prop :=
  ∃ stream, TokenStream.ofText source = .ok stream ∧ stream.terminals? source = some tree.yield

theorem Grammar.ClassDeclaration.isTreeOf_iff {tree : ClassDeclaration} {source : String} :
    tree.IsTreeOf source ↔
      (TokenStream.ofText source).toOption.bind (TokenStream.terminals? source) =
        some tree.yield := by
  unfold ClassDeclaration.IsTreeOf
  cases TokenStream.ofText source with
  | error failure => simp [Except.toOption]
  | ok stream => simp [Except.toOption]

/-- Whether a source has a given tree is found by reading it. -/
instance (tree : ClassDeclaration) (source : String) : Decidable (tree.IsTreeOf source) :=
  decidable_of_iff' _ ClassDeclaration.isTreeOf_iff

/-- A source has no more than one tree. -/
theorem Grammar.ClassDeclaration.IsTreeOf.unique {left right : ClassDeclaration} {source : String}
    (isLeft : left.IsTreeOf source) (isRight : right.IsTreeOf source) : left = right := by
  obtain ⟨stream, lexed, shown⟩ := isLeft
  obtain ⟨stream', lexed', shown'⟩ := isRight
  rw [lexed] at lexed'
  cases lexed'
  rw [shown, Option.some.injEq] at shown'
  exact ClassDeclaration.yield_injective shown'

section Compilers

variable {σ : Type} [LabelSource σ] (numbering : LabelSource.Numbering σ) {number : Nat}
  {start labels : σ} {unit source : String} {compiled : CompiledUnit}

/-- A unit that is compiled is the code of an admissible tree of its source. -/
theorem tree_of_compile (fits : source.utf8ByteSize ≤ Span.maxOffset)
    (stands : numbering.Stands number start)
    (success : compile start unit source = (.ok compiled, labels)) :
    ∃ tree : ClassDeclaration, tree.IsTreeOf source ∧ tree.Admissible ∧
      compiled.className = tree.name ∧
      compiled.code.toList = tree.code numbering.label number ∧
      numbering.Stands (number + labelCount tree.subroutines) labels := by
  unfold compile at success
  cases lexed : TokenStream.ofText source with
  | error failure =>
      rw [lexed] at success
      cases success
  | ok stream =>
      rw [lexed] at success
      simp only [compileTokens] at success
      cases outcome : Pass.classDeclaration.run ⟨source, stream.size + 1⟩
          ⟨stream, start, .empty, ""⟩ with
      | halted reason state =>
          rw [outcome] at success
          cases success
      | done code state =>
          rw [outcome] at success
          cases success
          have legible := TokenStream.legible_of_ofText fits lexed
          obtain ⟨tree, admissible, reads, ended, name, stands, isCode⟩ :=
            Pass.classDeclaration_of_done rfl stands legible outcome
          refine ⟨tree, ⟨stream, lexed, ?_⟩, admissible, name, isCode, stands⟩
          unfold TokenStream.terminals?
          rw [(TokenStream.start_of_ofText lexed).2]
          exact reads.mapM_of_end ended

end Compilers

/-- The single pass over a source yields the class name, the instructions and the labels that the
only tree of the source has from the number of the first label on. -/
theorem compile_agrees_with_tree {start labels : LabelCounter} {unit source : String}
    {compiled : CompiledUnit} (fits : source.utf8ByteSize ≤ Span.maxOffset)
    (success : compile start unit source = (.ok compiled, labels)) :
    ∃ tree : ClassDeclaration, tree.IsTreeOf source ∧
      (∀ other : ClassDeclaration, other.IsTreeOf source → other = tree) ∧
      compiled.className = tree.name ∧
      compiled.code.toList =
        tree.code (fun number => ⟨UInt32.ofNat number⟩) start.next.toNat ∧
      labels.next.toNat = start.next.toNat + labelCount tree.subroutines := by
  obtain ⟨tree, isTree, _, name, isCode, stands⟩ :=
    tree_of_compile LabelCounter.numbering fits rfl success
  exact ⟨tree, isTree, fun other isOther => isOther.unique isTree, name, isCode, stands⟩

/-- A loop compiled from label 7 on. -/
theorem compile_agrees_with_tree_of_loop :
    ∃ (source : String) (compiled : CompiledUnit) (tree : ClassDeclaration),
      compile (⟨7⟩ : LabelCounter) "A" source = (.ok compiled, ⟨9⟩) ∧ tree.IsTreeOf source ∧
      (∀ other : ClassDeclaration, other.IsTreeOf source → other = tree) ∧
      compiled.className = tree.name ∧
      compiled.code.toList = tree.code (fun number => ⟨UInt32.ofNat number⟩) 7 ∧
      9 = 7 + labelCount tree.subroutines := by
  have success : compile (⟨7⟩ : LabelCounter) "A" "class A{function int f(){while(0){}return 1;}}" =
      (.ok ⟨"A", .ofList [.function "A.f" 0, .label ⟨7⟩, .push .constant 0, .command .not,
        .ifGoto ⟨8⟩, .goto ⟨7⟩, .label ⟨8⟩, .push .constant 1, .return]⟩, ⟨9⟩) := by
    decide +kernel
  obtain ⟨tree, agrees⟩ := compile_agrees_with_tree (by decide +kernel) success
  exact ⟨_, _, tree, success, agrees⟩

end JackCompiler
