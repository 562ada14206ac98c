import JackCompiler.Proofs.Generation.Labels
import JackCompiler.Proofs.Output.Block
import Mathlib.Data.List.Nodup
import Mathlib.Data.List.Perm.Basic

/-!
# Jumps

The labels in the code of a class are exactly those that were drawn while it was compiled. Each is
defined once and is the target of one jump in the same block, and only the ends of loops go back in
the text.
-/

namespace JackCompiler

open Grammar

/-! ## Classes -/

namespace Grammar

/-- Whether code is that of a loop in one of some subroutines. -/
def SubroutineLoopCode (className : String) (ofClass : List (Declaration ClassStorage))
    (label : Nat → Label) (subroutines : List Subroutine) (code : List Instruction) : Prop :=
  ∃ subroutine ∈ subroutines,
    LoopCode (subroutine.environment className ofClass) label subroutine.body.loops code

/-- Whether code is that of a loop in a class. -/
def ClassDeclaration.LoopCode (label : Nat → Label) (declaration : ClassDeclaration) :
    List Instruction → Prop :=
  SubroutineLoopCode declaration.name declaration.declarations label declaration.subroutines

section Classes

variable {className : String} {ofClass : List (Declaration ClassStorage)} {label : Nat → Label}
  {sought : Label}

/-- The prologue of a subroutine mentions no label. -/
theorem mentions_prologue (kind : SubroutineKind) (fieldCount : Nat) :
    mentions sought (kind.prologue fieldCount) = [] := by
  cases kind <;> simp [SubroutineKind.prologue, Instruction.label?]

/-- Labels are mentioned in the bodies of subroutines only. -/
theorem Subroutine.mentions_block (subroutine : Subroutine) (number : Nat) :
    mentions sought (subroutine.block className ofClass label number).body =
      mentions sought
        (subroutine.body.code (subroutine.environment className ofClass) label number) := by
  rw [Subroutine.block, mentions_append, mentions_prologue, List.nil_append]

/-- A subroutine mentions the labels that its body does. -/
theorem Subroutine.mentions_code (subroutine : Subroutine) (number : Nat) :
    mentions sought (subroutine.code className ofClass label number) =
      mentions sought
        (subroutine.body.code (subroutine.environment className ofClass) label number) := by
  rw [Subroutine.code_eq, Block.instructions, mentions_cons, Subroutine.mentions_block]
  rfl

/-- The code of subroutines mentions no label that none of their numbers has. -/
theorem mentions_subroutinesCode_eq_nil (subroutines : List Subroutine) {number : Nat}
    (foreign : ∀ other, number ≤ other → other < number + labelCount subroutines →
      label other ≠ sought) :
    mentions sought (subroutinesCode className ofClass label number subroutines) = [] := by
  induction subroutines generalizing number with
  | nil => rfl
  | cons first others inductionHypothesis =>
      rw [labelCount] at foreign
      have inFirst : mentions sought (first.code className ofClass label number) = [] := by
        rw [Subroutine.mentions_code]
        exact first.body.mentions_eq_nil fun other above below => foreign other above (by omega)
      rw [subroutinesCode, mentions_append, inFirst, List.nil_append]
      exact inductionHypothesis fun other above below => foreign other (by omega) (by omega)

/-- The code of subroutines uses each label that they draw once. -/
theorem usedOnce_subroutinesCode (subroutines : List Subroutine) {number sought : Nat}
    (distinct : Set.InjOn label (Set.Ico number (number + labelCount subroutines)))
    (above : number ≤ sought) (below : sought < number + labelCount subroutines) :
    UsedOnce (SubroutineLoopCode className ofClass label subroutines) (label sought)
      (subroutinesCode className ofClass label number subroutines) := by
  induction subroutines generalizing number with
  | nil => exact absurd below (Nat.not_lt.2 above)
  | cons first others inductionHypothesis =>
      have apart := label_ne distinct above below
      rw [labelCount] at distinct below apart
      rw [subroutinesCode]
      rcases Nat.lt_or_ge sought (number + first.body.labelCount) with inFirst | inOthers
      · have bare : mentions (label sought) ([.function (className ++ "." ++ first.name)
            (UInt16.ofNat first.localDeclarations.length)] ++
            first.kind.prologue (Declaration.count ofClass .field)) = [] := by
          rw [mentions_append, mentions_prologue]
          rfl
        have used : UsedOnce (LoopCode (first.environment className ofClass) label first.body.loops)
            (label sought) (first.code className ofClass label number) :=
          (first.body.usedOnce (distinct.mono (Set.Ico_subset_Ico_right (by omega))) above
            inFirst).right bare
        refine (used.mono ?_).left ?_
        · intro loop isLoop
          exact ⟨first, List.mem_cons_self, isLoop⟩
        · exact mentions_subroutinesCode_eq_nil others fun other above' below' =>
            apart other (by omega) (by omega) (by omega)
      · have used := inductionHypothesis
          (distinct.mono (Set.Ico_subset_Ico (by omega) (by omega))) inOthers (by omega)
        refine (used.mono ?_).right ?_
        · rintro loop ⟨subroutine, member, isLoop⟩
          exact ⟨subroutine, List.mem_cons_of_mem first member, isLoop⟩
        · rw [Subroutine.mentions_code]
          exact first.body.mentions_eq_nil fun other above' below' =>
            apart other (by omega) (by omega) (by omega)

/-- A jump in the block of a subroutine goes to a label that the block defines. -/
theorem Subroutine.target_defined (subroutine : Subroutine) {number : Nat}
    (distinct : Set.InjOn label (Set.Ico number (number + subroutine.body.labelCount))) :
    ∀ target ∈ targets (subroutine.block className ofClass label number).body,
      target ∈ definedLabels (subroutine.block className ofClass label number).body := by
  intro target member
  rw [← List.count_pos_iff, count_targets, subroutine.mentions_block, ← count_targets] at member
  rw [← List.count_pos_iff, count_definedLabels, subroutine.mentions_block, ← count_definedLabels]
  by_cases own : ∃ other, number ≤ other ∧ other < number + subroutine.body.labelCount ∧
      label other = target
  · obtain ⟨other, above, below, rfl⟩ := own
    rw [(subroutine.body.usedOnce distinct above below).count_definedLabels_eq_one]
    exact Nat.one_pos
  · have bare : mentions target
        (subroutine.body.code (subroutine.environment className ofClass) label number) = [] :=
      subroutine.body.mentions_eq_nil fun other above below same => own ⟨other, above, below, same⟩
    rw [count_targets, bare] at member
    exact absurd member (Nat.lt_irrefl 0)

/-- Labels that are found once each, with no others, are those that were drawn. -/
theorem perm_of_count {labels : List Label} {number count : Nat}
    (distinct : Set.InjOn label (Set.Ico number (number + count)))
    (once : ∀ drawn, number ≤ drawn → drawn < number + count → labels.count (label drawn) = 1)
    (none : ∀ sought, (∀ other, number ≤ other → other < number + count → label other ≠ sought) →
      labels.count sought = 0) :
    labels.Perm ((List.range' number count).map label) := by
  have nodup : ((List.range' number count).map label).Nodup := by
    refine List.Nodup.map_on ?_ List.nodup_range'
    intro first firstIn second secondIn same
    exact distinct (List.mem_range'_1.1 firstIn) (List.mem_range'_1.1 secondIn) same
  refine List.perm_iff_count.2 ?_
  intro sought
  by_cases drawn : sought ∈ (List.range' number count).map label
  · obtain ⟨other, member, rfl⟩ := List.mem_map.1 drawn
    obtain ⟨above, below⟩ := List.mem_range'_1.1 member
    rw [once other above below, List.count_eq_one_of_mem nodup drawn]
  · rw [List.count_eq_zero_of_not_mem drawn]
    refine none sought ?_
    intro other above below same
    exact drawn (List.mem_map.2 ⟨other, List.mem_range'_1.2 ⟨above, below⟩, same⟩)

/-- The code of subroutines defines the label of each of their numbers once. -/
theorem definedLabels_subroutinesCode (subroutines : List Subroutine) {number : Nat}
    (distinct : Set.InjOn label (Set.Ico number (number + labelCount subroutines))) :
    (definedLabels (subroutinesCode className ofClass label number subroutines)).Perm
      ((List.range' number (labelCount subroutines)).map label) := by
  refine perm_of_count distinct ?_ ?_
  · intro drawn above below
    exact (usedOnce_subroutinesCode subroutines distinct above below).count_definedLabels_eq_one
  · intro sought foreign
    rw [count_definedLabels, mentions_subroutinesCode_eq_nil subroutines foreign]
    rfl

/-- The code of subroutines jumps to the label of each of their numbers once. -/
theorem targets_subroutinesCode (subroutines : List Subroutine) {number : Nat}
    (distinct : Set.InjOn label (Set.Ico number (number + labelCount subroutines))) :
    (targets (subroutinesCode className ofClass label number subroutines)).Perm
      ((List.range' number (labelCount subroutines)).map label) := by
  refine perm_of_count distinct ?_ ?_
  · intro drawn above below
    exact (usedOnce_subroutinesCode subroutines distinct above below).count_targets_eq_one
  · intro sought foreign
    rw [count_targets, mentions_subroutinesCode_eq_nil subroutines foreign]
    rfl

/-- Jumps in the code of subroutines go back only to close loops. -/
theorem closesLoop_subroutinesCode (subroutines : List Subroutine) {number : Nat}
    (distinct : Set.InjOn label (Set.Ico number (number + labelCount subroutines)))
    {earlier position : Nat} {jump : Instruction} (order : earlier < position)
    (defined : (subroutinesCode className ofClass label number subroutines)[earlier]? =
      some (.label sought))
    (found : (subroutinesCode className ofClass label number subroutines)[position]? = some jump)
    (target : jump.target? = some sought) :
    ClosesLoop (SubroutineLoopCode className ofClass label subroutines)
      (subroutinesCode className ofClass label number subroutines) position := by
  by_cases drawn : ∃ other, number ≤ other ∧ other < number + labelCount subroutines ∧
      label other = sought
  · obtain ⟨other, above, below, rfl⟩ := drawn
    exact (usedOnce_subroutinesCode subroutines distinct above below).closes_of_back order defined
      found target
  · have both := sublist_mentions order defined found rfl (Instruction.label?_of_target target)
    rw [mentions_subroutinesCode_eq_nil subroutines
      fun other above below same => drawn ⟨other, above, below, same⟩] at both
    cases both

end Classes

end Grammar

/-! ## Compiled units -/

/-- The labels of code are those of consecutive numbers, and no jump misses its label. -/
structure JumpsClosed (number count : Nat) (code : List Instruction) : Prop where
  /-- Each number is that of one definition. -/
  defined : ((definedLabels code).map fun label => label.number.toNat).Perm
    (List.range' number count)
  /-- Each number is that of the target of one jump. -/
  jumped : ((targets code).map fun label => label.number.toNat).Perm (List.range' number count)
  /-- All code is in blocks. -/
  blocks : (blocks code).flatMap Block.instructions = code
  /-- A jump stays in its block. -/
  within : ∀ block ∈ JackCompiler.blocks code, ∀ label ∈ targets block.body,
    label ∈ definedLabels block.body

/-- Numbers that a counter has passed are those of different labels. -/
theorem LabelCounter.label_injOn {number : Nat} (labels : LabelCounter) :
    Set.InjOn LabelCounter.numbering.label (Set.Ico number labels.next.toNat) := by
  have bound := labels.next.toNat_lt
  intro first firstIn second secondIn same
  rw [← LabelCounter.number_label (Nat.lt_trans firstIn.2 bound), same,
    LabelCounter.number_label (Nat.lt_trans secondIn.2 bound)]

/-- The code of a unit whose labels come from a counter defines each label that was drawn once and
has one jump to it, which is in the same block, and nothing else is jumped to. Only ends of loops
jump back. -/
theorem compile_jumps_closed {start labels : LabelCounter} {unit source : String}
    {compiled : CompiledUnit} (fits : source.utf8ByteSize ≤ Span.maxOffset)
    (success : compile start unit source = (.ok compiled, labels)) :
    start.next ≤ labels.next ∧
    JumpsClosed start.next.toNat (labels.next.toNat - start.next.toNat) compiled.code.toList ∧
    ∃ tree : ClassDeclaration, tree.IsTreeOf source ∧
      ∀ {earlier position : Nat} {jump : Instruction} {label : Label}, earlier < position →
        compiled.code.toList[earlier]? = some (.label label) →
        compiled.code.toList[position]? = some jump → jump.target? = some label →
        ClosesLoop (tree.LoopCode LabelCounter.numbering.label) compiled.code.toList position := by
  obtain ⟨tree, isTree, _, _, isCode, stands⟩ :=
    tree_of_compile LabelCounter.numbering fits rfl success
  have ended : labels.next.toNat = start.next.toNat + labelCount tree.subroutines := stands
  have bound : labels.next.toNat < 2 ^ 32 := labels.next.toNat_lt
  have counted : labels.next.toNat - start.next.toNat = labelCount tree.subroutines := by omega
  have distinct : Set.InjOn LabelCounter.numbering.label
      (Set.Ico start.next.toNat (start.next.toNat + labelCount tree.subroutines)) :=
    ended ▸ labels.label_injOn
  have numbers : ((List.range' start.next.toNat (labelCount tree.subroutines)).map
      LabelCounter.numbering.label).map (fun label => label.number.toNat) =
      List.range' start.next.toNat (labelCount tree.subroutines) := by
    rw [List.map_map, List.map_congr_left, List.map_id]
    intro number member
    exact LabelCounter.number_label (by have := (List.mem_range'_1.1 member).2; omega)
  refine ⟨UInt32.le_iff_toNat_le.2 (by omega), ?_, tree, isTree, ?_⟩
  · rw [counted, isCode, ClassDeclaration.code]
    refine ⟨?_, ?_, ?_, ?_⟩
    · rw [← numbers]
      exact (definedLabels_subroutinesCode tree.subroutines distinct).map _
    · rw [← numbers]
      exact (targets_subroutinesCode tree.subroutines distinct).map _
    · exact flatMap_blocks_subroutinesCode ..
    · refine forall_block (blocks_subroutinesCode ..) ?_
      rintro block subroutine ⟨_, first, above, below, rfl⟩
      exact subroutine.target_defined (distinct.mono (Set.Ico_subset_Ico above below))
  · rw [isCode]
    intro earlier position jump label order defined found target
    exact closesLoop_subroutinesCode tree.subroutines distinct order defined found target

/-- A loop around a choice: four labels, in the order of the text 7, 9, 10, 8. -/
theorem compile_jumps_closed_of_loop :
    ∃ (source : String) (compiled : CompiledUnit), source.utf8ByteSize ≤ Span.maxOffset ∧
      compile (⟨7⟩ : LabelCounter) "A" source = (.ok compiled, ⟨11⟩) ∧
      definedLabels compiled.code.toList = [⟨7⟩, ⟨9⟩, ⟨10⟩, ⟨8⟩] ∧
      targets compiled.code.toList = [⟨8⟩, ⟨9⟩, ⟨10⟩, ⟨7⟩] ∧
      JumpsClosed 7 4 compiled.code.toList ∧
      ∃ tree : ClassDeclaration, tree.IsTreeOf source ∧
        ClosesLoop (tree.LoopCode LabelCounter.numbering.label) compiled.code.toList 13 := by
  let source := "class A{function int f(){while(1){if(2){return 3;}}return 4;}}"
  let code : List Instruction := [.function "A.f" 0, .label ⟨7⟩, .push .constant 1, .command .not,
    .ifGoto ⟨8⟩, .push .constant 2, .command .not, .ifGoto ⟨9⟩, .push .constant 3, .return,
    .goto ⟨10⟩, .label ⟨9⟩, .label ⟨10⟩, .goto ⟨7⟩, .label ⟨8⟩, .push .constant 4, .return]
  have fits : source.utf8ByteSize ≤ Span.maxOffset := by decide +kernel
  have success : compile (⟨7⟩ : LabelCounter) "A" source = (.ok ⟨"A", .ofList code⟩, ⟨11⟩) := by
    decide +kernel
  obtain ⟨_, closed, tree, isTree, loops⟩ := compile_jumps_closed fits success
  rw [Code.toList_ofList] at closed loops
  refine ⟨source, _, fits, success, ?_⟩
  rw [Code.toList_ofList]
  exact ⟨rfl, rfl, closed, tree, isTree, loops (by decide : 1 < 13) rfl rfl rfl⟩

end JackCompiler
