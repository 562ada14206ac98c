import JackCompiler.Proofs.Generation.Instructions
import JackCompiler.Proofs.Generation.Numbering
import Mathlib.Data.Set.Function
import Mathlib.Order.Interval.Set.Basic

/-!
# Labels in the code of syntax trees

The code of statements mentions the label of every number that the statements draw in exactly two
places: where it is defined, and in one jump that goes to it. All other labels belong to code
elsewhere and are not mentioned. The definition comes behind the jump, except for the label in front
of a loop, which the end of the loop goes back to.

What is followed through the tree is the list of the places that mention one label. The labels of a
construct are drawn before those of its parts and placed around them, so each part either is the one
to which the label belongs, and has both places, or does not mention it at all.
-/

namespace JackCompiler

namespace Instruction

/-- The label that an instruction defines. -/
def defined? : Instruction → Option Label
  | .label place => some place
  | _ => none

/-- The label that control may go to after an instruction. -/
def target? : Instruction → Option Label
  | .goto destination | .ifGoto destination => some destination
  | _ => none

/-- The label that an instruction is about. -/
def label? : Instruction → Option Label
  | .label place | .goto place | .ifGoto place => some place
  | _ => none

variable {instruction : Instruction} {label : Label}

theorem defined?_label : (Instruction.label label).defined? = some label := rfl

theorem target?_label : (Instruction.label label).target? = none := rfl

/-- A label that an instruction defines is mentioned by it. -/
theorem label?_of_defined (defined : instruction.defined? = some label) :
    instruction.label? = some label := by
  cases instruction with
  | label place => exact defined
  | _ => cases defined

/-- A label that an instruction jumps to is mentioned by it. -/
theorem label?_of_target (target : instruction.target? = some label) :
    instruction.label? = some label := by
  cases instruction with
  | goto place | ifGoto place => exact target
  | _ => cases target

/-- A jump defines no label. -/
theorem defined?_of_target (target : instruction.target? = some label) :
    instruction.defined? = none := by
  cases instruction with
  | label place => cases target
  | _ => rfl

end Instruction

/-- The labels that code defines, in the order of the text. -/
def definedLabels (code : List Instruction) : List Label := code.filterMap Instruction.defined?

/-- The labels that jumps in code go to, in the order of the text. -/
def targets (code : List Instruction) : List Label := code.filterMap Instruction.target?

/-- The instructions that are about a label. -/
def mentions (label : Label) (code : List Instruction) : List Instruction :=
  code.filter fun instruction => instruction.label? = some label

section Mentions

variable {code first second : List Instruction} {label : Label}

/-- No code mentions no label. -/
@[simp] theorem mentions_nil : mentions label [] = [] := rfl

/-- What mentions a label in the one part comes before what mentions it in the other. -/
@[simp] theorem mentions_append :
    mentions label (first ++ second) = mentions label first ++ mentions label second :=
  List.filter_append ..

@[simp] theorem mentions_cons {instruction : Instruction} :
    mentions label (instruction :: code) =
      if instruction.label? = some label then instruction :: mentions label code
      else mentions label code := by
  simp [mentions, List.filter_cons]

/-- Code whose instructions have no labels mentions none. -/
theorem mentions_eq_nil_of_bare
    (bare : Consists (fun instruction => instruction.label? = none) code) :
    mentions label code = [] := by
  refine List.filter_eq_nil_iff.2 ?_
  intro instruction member
  simp [bare instruction member]

/-- A label is defined as often as the instruction for it is in the code. -/
theorem count_label : code.count (.label label) = (definedLabels code).count label := by
  rw [definedLabels, List.count_filterMap, List.count]
  refine List.countP_congr ?_
  intro instruction _
  cases instruction <;> simp [Instruction.defined?]

/-- Definitions are found among the mentions. -/
theorem count_definedLabels :
    (definedLabels code).count label = (definedLabels (mentions label code)).count label := by
  simp only [definedLabels, mentions, List.count_filterMap, List.countP_filter]
  refine List.countP_congr ?_
  intro instruction _
  simpa using Instruction.label?_of_defined

/-- Jumps are found among the mentions. -/
theorem count_targets :
    (targets code).count label = (targets (mentions label code)).count label := by
  simp only [targets, mentions, List.count_filterMap, List.countP_filter]
  refine List.countP_congr ?_
  intro instruction _
  simpa using Instruction.label?_of_target

/-- Two places that are about the same label are found in their order among its mentions. -/
theorem sublist_mentions {earlier later : Nat} {one two : Instruction} (order : earlier < later)
    (foundOne : code[earlier]? = some one) (foundTwo : code[later]? = some two)
    (ofOne : one.label? = some label) (ofTwo : two.label? = some label) :
    [one, two].Sublist (mentions label code) := by
  have inFront : one ∈ code.take later :=
    List.mem_of_getElem? ((List.getElem?_take_of_lt order).trans foundOne)
  have behind : two ∈ code.drop later :=
    List.mem_of_getElem? ((List.getElem?_drop (i := later) (j := 0)).trans foundTwo)
  have both := (List.singleton_sublist.2 inFront).append (List.singleton_sublist.2 behind)
  rw [List.take_append_drop] at both
  have kept := both.filter fun instruction => decide (instruction.label? = some label)
  simpa [mentions, ofOne, ofTwo] using kept

end Mentions

/-- How the code to which a label belongs uses it: in one definition and one jump. The jump goes
back only as the second last instruction of a loop. -/
inductive UsedOnce (IsLoop : List Instruction → Prop) (label : Label) (code : List Instruction) :
    Prop
  | forward {jump : Instruction} (target : jump.target? = some label)
      (mentioned : mentions label code = [jump, .label label])
  | back (before after : List Instruction) {round : List Instruction} {exit : Label}
      (isLoop : IsLoop (round ++ [.goto label, .label exit]))
      (part : code = before ++ (round ++ [.goto label, .label exit]) ++ after)
      (mentioned : mentions label code = [.label label, .goto label])

/-- A position is that of the jump at the end of a loop: of the code of a loop, which is somewhere
in the code, it is the second last. -/
def ClosesLoop (IsLoop : List Instruction → Prop) (code : List Instruction) (position : Nat) :
    Prop :=
  ∃ before loop after, IsLoop loop ∧ code = before ++ loop ++ after ∧
    position + 2 = (before ++ loop).length

namespace UsedOnce

variable {IsLoop Wider : List Instruction → Prop} {label : Label}
  {code first second : List Instruction}

/-- A label that is used once in some code is used once in front of code that does not mention it.
-/
theorem left (used : UsedOnce IsLoop label first) (bare : mentions label second = []) :
    UsedOnce IsLoop label (first ++ second) := by
  cases used with
  | forward target mentioned => exact .forward target (by simp [mentioned, bare])
  | back before after isLoop part mentioned =>
      exact .back before (after ++ second) isLoop (by rw [part, List.append_assoc])
        (by simp [mentioned, bare])

/-- A label that is used once in some code is used once behind code that does not mention it. -/
theorem right (used : UsedOnce IsLoop label second) (bare : mentions label first = []) :
    UsedOnce IsLoop label (first ++ second) := by
  cases used with
  | forward target mentioned => exact .forward target (by simp [mentioned, bare])
  | back before after isLoop part mentioned =>
      exact .back (first ++ before) after isLoop
        (by rw [part, ← List.append_assoc, ← List.append_assoc]) (by simp [mentioned, bare])

/-- A label is used once whichever loops there are besides. -/
theorem mono (used : UsedOnce IsLoop label code) (wider : ∀ loop, IsLoop loop → Wider loop) :
    UsedOnce Wider label code := by
  cases used with
  | forward target mentioned => exact .forward target mentioned
  | back before after isLoop part mentioned =>
      exact .back before after (wider _ isLoop) part mentioned

/-- A label that is used once is defined once. -/
theorem count_definedLabels_eq_one (used : UsedOnce IsLoop label code) :
    (definedLabels code).count label = 1 := by
  rw [count_definedLabels]
  cases used with
  | forward target mentioned =>
      simp [mentioned, definedLabels, Instruction.defined?_of_target target,
        Instruction.defined?_label]
  | back _ _ _ _ mentioned =>
      simp [mentioned, definedLabels, List.filterMap_cons, Instruction.defined?]

/-- A label that is used once is jumped to once. -/
theorem count_targets_eq_one (used : UsedOnce IsLoop label code) :
    (targets code).count label = 1 := by
  rw [count_targets]
  cases used with
  | forward target mentioned =>
      simp [mentioned, targets, List.filterMap_cons, target, Instruction.target?_label]
  | back _ _ _ _ mentioned => simp [mentioned, targets, List.filterMap_cons, Instruction.target?]

/-- A jump to a label that is defined in front of it closes a loop. -/
theorem closes_of_back (used : UsedOnce IsLoop label code) {earlier position : Nat}
    {jump : Instruction} (order : earlier < position)
    (defined : code[earlier]? = some (.label label)) (found : code[position]? = some jump)
    (target : jump.target? = some label) :
    ClosesLoop IsLoop code position := by
  have about := Instruction.label?_of_target target
  have ordered := sublist_mentions order defined found rfl about
  cases used with
  | forward _ mentioned =>
      rw [mentioned] at ordered
      cases ordered.eq_of_length rfl
      cases target
  | @back before after round exit isLoop part mentioned =>
      refine ⟨before, _, after, isLoop, part, ?_⟩
      rw [mentioned] at ordered
      cases ordered.eq_of_length rfl
      have closing : code[before.length + round.length]? = some (.goto label) := by
        simp [part]
      -- A second place with the same jump would be a third one that mentions the label.
      have same : position = before.length + round.length := by
        rcases Nat.lt_trichotomy position (before.length + round.length) with less | same | more
        · have twice := sublist_mentions less found closing rfl rfl
          rw [mentioned] at twice
          cases twice.eq_of_length rfl
        · exact same
        · have twice := sublist_mentions more closing found rfl rfl
          rw [mentioned] at twice
          cases twice.eq_of_length rfl
      simp only [same, List.length_append, List.length_cons, List.length_nil]
      omega

end UsedOnce

namespace Grammar

/-! ## Labels are used by number -/

section Numbers

variable (environment : Environment) {label label' : Nat → Label}

mutual

/-- The code of a statement depends on the labels that the statement draws alone. -/
theorem Statement.code_congr (tree : Statement) {number : Nat}
    (same : ∀ other, number ≤ other → other < number + tree.labelCount →
      label other = label' other) :
    tree.code environment label number = tree.code environment label' number := by
  cases tree with
  | assign | assignElement | perform => rfl
  | «return» value => cases value <;> rfl
  | choice test body alternative =>
      rw [Statement.labelCount] at same
      rw [Statement.code, Statement.code, same number (by omega) (by omega),
        same (number + 1) (by omega) (by omega),
        body.code_congr fun other above below => same other (by omega) (by omega),
        alternative.code_congr fun other above below => same other (by omega) (by omega)]
  | loop test body =>
      rw [Statement.labelCount] at same
      rw [Statement.code, Statement.code, same number (by omega) (by omega),
        same (number + 1) (by omega) (by omega),
        body.code_congr fun other above below => same other (by omega) (by omega)]

/-- The code of statements depends only on the labels of the numbers that they draw. -/
theorem Statements.code_congr (tree : Statements) {number : Nat}
    (same : ∀ other, number ≤ other → other < number + tree.labelCount →
      label other = label' other) :
    tree.code environment label number = tree.code environment label' number := by
  cases tree with
  | nil => rfl
  | cons first others =>
      rw [Statements.labelCount] at same
      rw [Statements.code, Statements.code,
        first.code_congr fun other above below => same other above (by omega),
        others.code_congr fun other above below => same other (by omega) (by omega)]

/-- The code of an alternative depends only on the labels of the numbers that it draws. -/
theorem Alternative.code_congr (tree : Alternative) {number : Nat}
    (same : ∀ other, number ≤ other → other < number + tree.labelCount →
      label other = label' other) :
    tree.code environment label number = tree.code environment label' number := by
  cases tree with
  | absent => rfl
  | present body => exact body.code_congr same

end

/-- The code of subroutines depends only on the labels of the numbers that they draw. -/
theorem subroutinesCode_congr (className : String) (ofClass : List (Declaration ClassStorage))
    (subroutines : List Subroutine) {number : Nat}
    (same : ∀ other, number ≤ other → other < number + labelCount subroutines →
      label other = label' other) :
    subroutinesCode className ofClass label number subroutines =
      subroutinesCode className ofClass label' number subroutines := by
  induction subroutines generalizing number with
  | nil => rfl
  | cons first others inductionHypothesis =>
      rw [labelCount] at same
      rw [subroutinesCode, subroutinesCode, Subroutine.code, Subroutine.code,
        first.body.code_congr _ fun other above below => same other above (by omega),
        inductionHypothesis fun other above below => same other (by omega) (by omega)]

end Numbers

/-! ## Labels are mentioned twice -/

mutual

/-- The loops in a statement, those in other loops included. -/
def Statement.loops : Statement → List (Expression × Statements)
  | .choice _ body alternative => body.loops ++ alternative.loops
  | .loop test body => (test, body) :: body.loops
  | .assign .. | .assignElement .. | .perform .. | .return .. => []

/-- The loops in statements, with those within each. -/
def Statements.loops : Statements → List (Expression × Statements)
  | .nil => []
  | .cons first others => first.loops ++ others.loops

/-- The loops in an alternative. -/
def Alternative.loops : Alternative → List (Expression × Statements)
  | .absent => []
  | .present body => body.loops

end

/-- Whether code is that of some of the given loops. -/
def LoopCode (environment : Environment) (label : Nat → Label)
    (loops : List (Expression × Statements)) (code : List Instruction) : Prop :=
  ∃ test body number, (test, body) ∈ loops ∧
    code = (Statement.loop test body).code environment label number

/-- The code of a loop is code of one of more loops. -/
theorem LoopCode.mono {environment : Environment} {label : Nat → Label}
    {loops more : List (Expression × Statements)} (subset : loops ⊆ more)
    (code : List Instruction) :
    LoopCode environment label loops code → LoopCode environment label more code := by
  rintro ⟨test, body, number, member, same⟩
  exact ⟨test, body, number, subset member, same⟩

section Bare

variable {environment : Environment} {label : Label}

/-- Code like that of expressions mentions no label. -/
theorem mentions_of_expression {code : List Instruction}
    (within : Consists (ExpressionInstruction environment fun _ => True) code) :
    mentions label code = [] := by
  refine mentions_eq_nil_of_bare ?_
  intro instruction member
  cases within instruction member <;> rfl

/-- The code of an expression mentions no label. -/
theorem mentions_expression (tree : Expression) :
    mentions label (tree.code environment) = [] :=
  mentions_of_expression (tree.consists environment fun _ _ => trivial)

/-- The code of a call mentions no label. -/
theorem mentions_call (tree : Call) : mentions label (tree.code environment) = [] :=
  mentions_of_expression (tree.consists environment fun _ _ => trivial)

/-- Loading a variable mentions no label. -/
theorem mentions_load (name : String) : mentions label (environment.load name) = [] :=
  mentions_of_expression (consists_load environment trivial)

/-- Storing to a variable mentions no label. -/
theorem mentions_store (name : String) : mentions label (environment.store name) = [] := by
  unfold Environment.store
  cases environment.place? name <;> rfl

end Bare

section Statements

variable {environment : Environment} {label : Nat → Label} {sought : Label}

/-- A test mentions only the label that it goes to if it fails. -/
theorem mentions_test (test : Expression) {exit : Label} (foreign : exit ≠ sought) :
    mentions sought (test.code environment ++ [.command .not, .ifGoto exit]) = [] := by
  simp [mentions_expression, Instruction.label?, foreign]

mutual

/-- The code of a statement does not mention labels that the statement does not draw. -/
theorem Statement.mentions_eq_nil (tree : Statement) {number : Nat}
    (foreign : ∀ other, number ≤ other → other < number + tree.labelCount → label other ≠ sought) :
    mentions sought (tree.code environment label number) = [] := by
  cases tree with
  | assign target value => simp [Statement.code, mentions_expression, mentions_store]
  | assignElement array index value =>
      simp [Statement.code, mentions_expression, mentions_load, Instruction.label?]
  | choice test body alternative =>
      rw [Statement.labelCount] at foreign
      have first := foreign number (by omega) (by omega)
      have second := foreign (number + 1) (by omega) (by omega)
      have inBody : mentions sought (body.code environment label (number + 2)) = [] :=
        body.mentions_eq_nil fun other above below => foreign other (by omega) (by omega)
      have inAlternative : mentions sought
          (alternative.code environment label (number + 2 + body.labelCount)) = [] :=
        alternative.mentions_eq_nil fun other above below =>
          foreign other (by omega) (by omega)
      simp [Statement.code, mentions_expression, inBody, inAlternative,
        Instruction.label?, first, second]
  | loop test body =>
      rw [Statement.labelCount] at foreign
      have first := foreign number (by omega) (by omega)
      have second := foreign (number + 1) (by omega) (by omega)
      have inBody : mentions sought (body.code environment label (number + 2)) = [] :=
        body.mentions_eq_nil fun other above below => foreign other (by omega) (by omega)
      simp [Statement.code, mentions_expression, inBody, Instruction.label?, first,
        second]
  | perform call => simp [Statement.code, mentions_call, Instruction.label?]
  | «return» value =>
      cases value with
      | none => rfl
      | some value => simp [Statement.code, mentions_expression, Instruction.label?]

/-- The code of statements mentions no label that none of their numbers has. -/
theorem Statements.mentions_eq_nil (tree : Statements) {number : Nat}
    (foreign : ∀ other, number ≤ other → other < number + tree.labelCount → label other ≠ sought) :
    mentions sought (tree.code environment label number) = [] := by
  cases tree with
  | nil => rfl
  | cons first others =>
      rw [Statements.labelCount] at foreign
      have inFirst : mentions sought (first.code environment label number) = [] :=
        first.mentions_eq_nil fun other above below => foreign other above (by omega)
      rw [Statements.code, mentions_append, inFirst, List.nil_append]
      exact others.mentions_eq_nil fun other above below => foreign other (by omega) (by omega)

/-- The code of an alternative mentions no label that none of its numbers has. -/
theorem Alternative.mentions_eq_nil (tree : Alternative) {number : Nat}
    (foreign : ∀ other, number ≤ other → other < number + tree.labelCount → label other ≠ sought) :
    mentions sought (tree.code environment label number) = [] := by
  cases tree with
  | absent => rfl
  | present body => exact body.mentions_eq_nil foreign

end

/-- Different numbers have different labels, so what draws others does not mention a label. -/
theorem label_ne {low high sought : Nat} (distinct : Set.InjOn label (Set.Ico low high))
    (above : low ≤ sought) (below : sought < high) :
    ∀ other, low ≤ other → other < high → other ≠ sought → label other ≠ label sought :=
  fun _ above' below' apart same => apart (distinct ⟨above', below'⟩ ⟨above, below⟩ same)

mutual

/-- The code of a statement uses each label that the statement draws once. -/
theorem Statement.usedOnce (tree : Statement) {number sought : Nat}
    (distinct : Set.InjOn label (Set.Ico number (number + tree.labelCount)))
    (above : number ≤ sought) (below : sought < number + tree.labelCount) :
    UsedOnce (LoopCode environment label tree.loops) (label sought)
      (tree.code environment label number) := by
  have apart := label_ne distinct above below
  cases tree with
  | choice test body alternative =>
      rw [Statement.labelCount] at distinct below apart
      have inBody (outside : sought < number + 2 ∨ number + 2 + body.labelCount ≤ sought) :
          mentions (label sought) (body.code environment label (number + 2)) = [] :=
        body.mentions_eq_nil fun other above' below' =>
          apart other (by omega) (by omega) (by omega)
      have inAlternative (outside : sought < number + 2 + body.labelCount) :
          mentions (label sought)
            (alternative.code environment label (number + 2 + body.labelCount)) = [] :=
        alternative.mentions_eq_nil fun other above' below' =>
          apart other (by omega) (by omega) (by omega)
      -- The label is one of the two of the choice, or it is drawn in one of the branches.
      rcases (by omega : sought = number ∨ sought = number + 1 ∨
        number + 2 ≤ sought ∧ sought < number + 2 + body.labelCount ∨
        number + 2 + body.labelCount ≤ sought) with rfl | rfl | ⟨after, before⟩ | after
      · have second := apart (sought + 1) (by omega) (by omega) (by omega)
        have target : (Instruction.ifGoto (label sought)).target? = some (label sought) := rfl
        refine .forward target ?_
        simp [Statement.code, mentions_expression, inBody (by omega), inAlternative (by omega),
          Instruction.label?, second]
      · have first := apart number (by omega) (by omega) (by omega)
        have target : (Instruction.goto (label (number + 1))).target? = some (label (number + 1)) :=
          rfl
        refine .forward target ?_
        simp [Statement.code, mentions_expression, inBody (by omega), inAlternative (by omega),
          Instruction.label?, first]
      · have first := apart number (by omega) (by omega) (by omega)
        have second := apart (number + 1) (by omega) (by omega) (by omega)
        have used := body.usedOnce (distinct.mono (Set.Ico_subset_Ico (by omega) (by omega))) after
          before
        refine ((((used.mono (LoopCode.mono (List.subset_append_left _ _))).right ?_).left ?_).left
          (inAlternative before)).left ?_
        · exact mentions_test test first
        · simp [Instruction.label?, first, second]
        · simp [Instruction.label?, second]
      · have first := apart number (by omega) (by omega) (by omega)
        have second := apart (number + 1) (by omega) (by omega) (by omega)
        have used := alternative.usedOnce
          (distinct.mono (Set.Ico_subset_Ico (by omega) (by omega))) after (by omega)
        refine ((used.mono (LoopCode.mono (List.subset_append_right _ _))).right ?_).left ?_
        · simp [mentions_expression, inBody (by omega), Instruction.label?, first, second]
        · simp [Instruction.label?, second]
  | loop test body =>
      rw [Statement.labelCount] at distinct below apart
      have inBody (outside : sought < number + 2) :
          mentions (label sought) (body.code environment label (number + 2)) = [] :=
        body.mentions_eq_nil fun other above' below' =>
          apart other (by omega) (by omega) (by omega)
      -- The label is one of the two of the loop, or it is drawn in the body.
      rcases (by omega : sought = number ∨ sought = number + 1 ∨ number + 2 ≤ sought) with
        rfl | rfl | after
      · have second := apart (sought + 1) (by omega) (by omega) (by omega)
        have isLoop : LoopCode environment label (Statement.loop test body).loops
            ((Statement.loop test body).code environment label sought) :=
          ⟨test, body, sought, List.mem_cons_self, rfl⟩
        refine .back [] [] isLoop (List.append_nil _).symm ?_
        simp [Statement.code, mentions_expression, inBody (by omega), Instruction.label?, second]
      · have first := apart number (by omega) (by omega) (by omega)
        have target :
            (Instruction.ifGoto (label (number + 1))).target? = some (label (number + 1)) := rfl
        refine .forward target ?_
        simp [Statement.code, mentions_expression, inBody (by omega), Instruction.label?, first]
      · have first := apart number (by omega) (by omega) (by omega)
        have second := apart (number + 1) (by omega) (by omega) (by omega)
        have used := body.usedOnce (distinct.mono (Set.Ico_subset_Ico (by omega) (by omega))) after
          (by omega)
        refine ((used.mono (LoopCode.mono (List.subset_cons_self _ _))).right ?_).left ?_
        · simp [mentions_expression, Instruction.label?, first, second]
        · simp [Instruction.label?, first, second]
  | assign | assignElement | perform | «return» => exact absurd below (Nat.not_lt.2 above)

/-- Statements define the label of each of their numbers once and jump to it once. -/
theorem Statements.usedOnce (tree : Statements) {number sought : Nat}
    (distinct : Set.InjOn label (Set.Ico number (number + tree.labelCount)))
    (above : number ≤ sought) (below : sought < number + tree.labelCount) :
    UsedOnce (LoopCode environment label tree.loops) (label sought)
      (tree.code environment label number) := by
  have apart := label_ne distinct above below
  cases tree with
  | nil => exact absurd below (Nat.not_lt.2 above)
  | cons first others =>
      rw [Statements.labelCount] at distinct below apart
      rw [Statements.code, Statements.loops]
      rcases Nat.lt_or_ge sought (number + first.labelCount) with inFirst | inOthers
      · have used := first.usedOnce (distinct.mono (Set.Ico_subset_Ico_right (by omega))) above
          inFirst
        refine (used.mono (LoopCode.mono (List.subset_append_left _ _))).left ?_
        exact others.mentions_eq_nil fun other above' below' =>
          apart other (by omega) (by omega) (by omega)
      · have used := others.usedOnce (distinct.mono (Set.Ico_subset_Ico (by omega) (by omega)))
          inOthers (by omega)
        refine (used.mono (LoopCode.mono (List.subset_append_right _ _))).right ?_
        exact first.mentions_eq_nil fun other above' below' =>
          apart other (by omega) (by omega) (by omega)

/-- An alternative defines the label of each of its numbers once and jumps to it once. -/
theorem Alternative.usedOnce (tree : Alternative) {number sought : Nat}
    (distinct : Set.InjOn label (Set.Ico number (number + tree.labelCount)))
    (above : number ≤ sought) (below : sought < number + tree.labelCount) :
    UsedOnce (LoopCode environment label tree.loops) (label sought)
      (tree.code environment label number) := by
  cases tree with
  | absent => exact absurd below (Nat.not_lt.2 above)
  | present body => exact body.usedOnce distinct above below

end

end Statements

/-- Code whose labels were drawn one after another and are different defines each of them once. -/
theorem Statements.count_label_le_one {σ : Type} [LabelSource σ] {environment : Environment}
    {labels after : σ} (sought : Label) (tree : Statements)
    (different : LabelSource.Distinct labels tree.labelCount)
    (drawn : LabelSource.drawn? labels tree.labelCount = some after) :
    (tree.code environment (LabelSource.numbering labels).label 0).count (.label sought) ≤ 1 := by
  have distinct : Set.InjOn (LabelSource.numbering labels).label
      (Set.Ico 0 (0 + tree.labelCount)) := by
    rw [Nat.zero_add]
    intro first firstIn second secondIn same
    exact different.label_injective drawn firstIn.2 secondIn.2 same
  rw [count_label]
  by_cases own : ∃ number, number < tree.labelCount ∧
      (LabelSource.numbering labels).label number = sought
  · obtain ⟨number, below, rfl⟩ := own
    have used : UsedOnce _ _ (tree.code environment (LabelSource.numbering labels).label 0) :=
      tree.usedOnce distinct (Nat.zero_le number) (by omega)
    exact Nat.le_of_eq used.count_definedLabels_eq_one
  · have bare : mentions sought
        (tree.code environment (LabelSource.numbering labels).label 0) = [] :=
      tree.mentions_eq_nil fun other _ below same => own ⟨other, by omega, same⟩
    rw [count_definedLabels, bare]
    exact Nat.zero_le 1

end Grammar

end JackCompiler
