import JackCompiler.Proofs.Labelling.Workshop
import Mathlib.Data.List.TakeDrop
import Mathlib.Algebra.Ring.Nat

/-!
# Other labels

What is compiled with one source of labels is, label for label, what is compiled with any other.
The labels of a fresh counter are their own numbers, so the code that it leads to says for each
place which label is wanted there, and the code for another source is that code with the labels
of that source filled in.

For a tree this is a matter of following its code. The rest is about who hands out the labels: a
source that was not used before, a counter that other units have drawn from, and labels that others
draw from at the same time.
-/

namespace JackCompiler

open Grammar

/-! ## Instructions -/

/-- An instruction about other labels. -/
def Instruction.relabel (rename : Label → Label) : Instruction → Instruction
  | .label place => .label (rename place)
  | .goto destination => .goto (rename destination)
  | .ifGoto destination => .ifGoto (rename destination)
  | other => other

/-- A unit with other labels in its code. -/
def CompiledUnit.relabel (rename : Label → Label) (compiled : CompiledUnit) : CompiledUnit where
  className := compiled.className
  code := .ofList (compiled.code.toList.map (.relabel rename))

namespace Grammar

section Trees

variable (rename : Label → Label) (environment : Environment) (label : Nat → Label)

/-- Expressions have no labels. -/
theorem map_relabel_of_expression {code : List Instruction}
    (within : Consists (ExpressionInstruction environment fun _ => True) code) :
    code.map (.relabel rename) = code := by
  refine (List.map_congr_left ?_).trans (List.map_id code)
  intro instruction member
  cases within instruction member <;> rfl

/-- The code of an expression has no labels to fill in. -/
@[simp] theorem map_relabel_expression (tree : Expression) :
    (tree.code environment).map (.relabel rename) = tree.code environment :=
  map_relabel_of_expression rename environment (tree.consists environment fun _ _ => trivial)

/-- The code of a call has no labels to fill in. -/
@[simp] theorem map_relabel_call (tree : Call) :
    (tree.code environment).map (.relabel rename) = tree.code environment :=
  map_relabel_of_expression rename environment (tree.consists environment fun _ _ => trivial)

@[simp] theorem map_relabel_load (name : String) :
    (environment.load name).map (.relabel rename) = environment.load name :=
  map_relabel_of_expression rename environment (consists_load environment trivial)

@[simp] theorem map_relabel_store (name : String) :
    (environment.store name).map (.relabel rename) = environment.store name := by
  unfold Environment.store
  cases environment.place? name <;> rfl

mutual

/-- Other labels in the code of a statement are its code with other labels. -/
theorem Statement.map_relabel (tree : Statement) (number : Nat) :
    (tree.code environment label number).map (.relabel rename) =
      tree.code environment (rename ∘ label) number := by
  cases tree with
  | assign | assignElement | perform => simp [Statement.code, Instruction.relabel]
  | «return» value => cases value <;> simp [Statement.code, Instruction.relabel]
  | choice test body alternative =>
      simp [Statement.code, Instruction.relabel, body.map_relabel, alternative.map_relabel]
  | loop test body => simp [Statement.code, Instruction.relabel, body.map_relabel]

/-- Other labels in the code of statements are their code with other labels. -/
theorem Statements.map_relabel (tree : Statements) (number : Nat) :
    (tree.code environment label number).map (.relabel rename) =
      tree.code environment (rename ∘ label) number := by
  cases tree with
  | nil => rfl
  | cons first others => simp [Statements.code, first.map_relabel, others.map_relabel]

/-- Other labels in the code of an alternative are its code with other labels. -/
theorem Alternative.map_relabel (tree : Alternative) (number : Nat) :
    (tree.code environment label number).map (.relabel rename) =
      tree.code environment (rename ∘ label) number := by
  cases tree with
  | absent => rfl
  | present body => exact body.map_relabel number

end

/-- Other labels in the code of a subroutine are its code with other labels. -/
theorem Subroutine.map_relabel (className : String) (ofClass : List (Declaration ClassStorage))
    (subroutine : Subroutine) (number : Nat) :
    (subroutine.code className ofClass label number).map (.relabel rename) =
      subroutine.code className ofClass (rename ∘ label) number := by
  have prologue (count : Nat) : (subroutine.kind.prologue count).map (.relabel rename) =
      subroutine.kind.prologue count := by
    cases subroutine.kind <;> rfl
  simp [Subroutine.code, prologue, Statements.map_relabel, Instruction.relabel]

/-- The code of a tree with other labels is its code with the labels replaced. -/
theorem ClassDeclaration.map_relabel (tree : ClassDeclaration) (number : Nat) :
    (tree.code label number).map (.relabel rename) = tree.code (rename ∘ label) number := by
  unfold ClassDeclaration.code
  induction tree.subroutines generalizing number with
  | nil => rfl
  | cons first others inductionHypothesis =>
      simp only [subroutinesCode, List.map_append, Subroutine.map_relabel, inductionHypothesis]

end Trees

end Grammar

/-! ## One unit -/

/-- A unit that is compiled on its own, with all labels of a counter to draw. -/
def compileAlone (unit source : String) : Except Failure CompiledUnit × LabelCounter :=
  compile ({} : LabelCounter) unit source

/-- How many labels are drawn for a unit that is compiled on its own. -/
def drawnAlone (source : String) : Nat := (compileAlone "" source).2.next.toNat

section Units

variable {τ : Type} [LabelSource τ] {first : τ} {unit source : String}

/-- A unit that is compiled on its own draws the labels that are wanted. -/
theorem drawnAlone_eq
    (alone : (compileAlone unit source).1 ≠ .error (.broken .labelsExhausted)) :
    drawnAlone source = labelsWanted source := by
  rcases compile_cases ({} : LabelCounter) unit source with ⟨drawn, _⟩ | ⟨_, exhausted, _⟩
  · rw [drawnAlone, compileAlone, ← labels_of_unit _ unit, LabelCounter.next_of_drawn? drawn]
    exact Nat.zero_add _
  · exact absurd exhausted alone

/-- The code of a unit is its code on its own with the labels replaced. -/
theorem compiled_eq_relabel (fits : source.utf8ByteSize ≤ Span.maxOffset)
    {own compiled : CompiledUnit} (alone : (compileAlone unit source).1 = .ok own)
    (success : (compile first unit source).1 = .ok compiled) {label : Nat → Label}
    (same : ∀ number < labelsWanted source,
      (LabelSource.numbering first).label number = label number) :
    compiled = own.relabel fun wanted => label wanted.number.toNat := by
  obtain ⟨tree, isTree, _, name, isCode, stands⟩ :=
    tree_of_compile LabelCounter.numbering fits rfl (Prod.ext alone rfl)
  obtain ⟨tree', isTree', _, name', isCode', _⟩ :=
    tree_of_compile (LabelSource.numbering first) fits (LabelSource.numbering_stands first)
      (Prod.ext success rfl)
  obtain rfl := isTree'.unique isTree
  rw [labelsWanted_eq fits success isTree'] at same
  have few : labelCount tree'.subroutines < 2 ^ 32 := by
    have drawn : (compileAlone unit source).2.next.toNat = 0 + labelCount tree'.subroutines :=
      stands
    have bound := (compileAlone unit source).2.next.toNat_lt
    omega
  have codes : compiled.code =
      .ofList (own.code.toList.map (.relabel fun wanted => label wanted.number.toNat)) := by
    refine Code.toList_injective ?_
    rw [isCode', Code.toList_ofList, isCode, ClassDeclaration.map_relabel]
    refine subroutinesCode_congr _ _ _ fun number _ below => ?_
    have below : number < labelCount tree'.subroutines := by omega
    rw [Function.comp_apply, LabelCounter.number_label (by omega), same number below]
  obtain ⟨_, _⟩ := compiled
  obtain ⟨_, _⟩ := own
  cases codes
  cases name
  cases name'
  rfl

/-- The outcome for a unit is that on its own with the labels replaced, unless they run out. -/
theorem outcome_eq_relabel (fits : source.utf8ByteSize ≤ Span.maxOffset)
    (alone : (compileAlone unit source).1 ≠ .error (.broken .labelsExhausted))
    (plenty : (compile first unit source).1 ≠ .error (.broken .labelsExhausted))
    (label : Nat → Label) (same : ∀ number < labelsWanted source,
      (LabelSource.numbering first).label number = label number) :
    (compile first unit source).1 =
      (compileAlone unit source).1.map (.relabel fun wanted => label wanted.number.toNat) := by
  have verdict : (compile first unit source).1.map CompiledUnit.className =
      (compileAlone unit source).1.map CompiledUnit.className := by
    rcases compile_cases first unit source with ⟨_, _, left⟩ | ⟨_, exhausted, _⟩
    · rcases compile_cases ({} : LabelCounter) unit source with ⟨_, _, right⟩ | ⟨_, exhausted, _⟩
      · exact left.trans right.symm
      · exact absurd exhausted alone
    · exact absurd exhausted plenty
  cases left : (compile first unit source).1 with
  | error failure =>
      cases right : (compileAlone unit source).1 with
      | error failure' =>
          rw [left, right] at verdict
          exact congrArg Except.error (Except.error.inj verdict)
      | ok own =>
          rw [left, right] at verdict
          cases verdict
  | ok compiled =>
      cases right : (compileAlone unit source).1 with
      | error failure' =>
          rw [left, right] at verdict
          cases verdict
      | ok own => exact congrArg Except.ok (compiled_eq_relabel fits right left same)

end Units

/-! ## Units one after another -/

/-- A label that was drawn so many labels later. -/
def Label.shift (distance : Nat) (label : Label) : Label :=
  ⟨label.number + UInt32.ofNat distance⟩

namespace LabelCounter

variable {counter after : LabelCounter} {count : Nat}

/-- A counter hands out labels up to the largest number. -/
theorem exists_drawn? (enough : counter.next.toNat + count ≤ maxNumber.toNat) :
    ∃ after, LabelSource.drawn? counter count = some after := by
  induction count with
  | zero => exact ⟨counter, rfl⟩
  | succ count inductionHypothesis =>
      obtain ⟨left, drawn⟩ := inductionHypothesis (by omega)
      have reached := next_of_drawn? drawn
      cases draw : left.draw? with
      | none =>
          have ended : left.next.toNat = maxNumber.toNat :=
            congrArg UInt32.toNat (draw?_eq_none_iff.1 draw)
          omega
      | some pair => exact ⟨pair.2, LabelSource.drawn?_succ drawn draw⟩

/-- Labels that are drawn later are those of a fresh counter, shifted. -/
theorem label_eq_shift (drawn : LabelSource.drawn? counter count = some after) {number : Nat}
    (below : number < count) :
    (LabelSource.numbering counter).label number =
      Label.shift counter.next.toNat ⟨UInt32.ofNat number⟩ := by
  obtain ⟨left, _, reached, draw⟩ := LabelSource.exists_drawn drawn below
  have next := next_of_drawn? reached
  have bound := left.next.toNat_lt
  have shifted : (UInt32.ofNat number + UInt32.ofNat counter.next.toNat : UInt32) = left.next := by
    rw [← UInt32.ofNat_add, ← UInt32.ofNat_toNat (x := left.next), next, Nat.add_comm]
  show _ = (⟨_⟩ : Label)
  rw [shifted]
  exact Label.mk.injEq _ _ |>.mpr (next_of_draw? draw).1

variable {unit source : String}

/-- With a counter that is not fresh the outcome is that of the unit on its own with the labels
shifted, and as many labels are drawn. -/
theorem outcome_eq_shift (fits : source.utf8ByteSize ≤ Span.maxOffset)
    (plenty : (compile counter unit source).1 ≠ .error (.broken .labelsExhausted)) :
    (compile counter unit source).1 =
        (compileAlone unit source).1.map (.relabel (.shift counter.next.toNat)) ∧
      (compile counter unit source).2.next.toNat =
        counter.next.toNat + drawnAlone source := by
  rcases compile_cases counter unit source with ⟨drawn, _⟩ | ⟨_, exhausted, _⟩
  · have reached := next_of_drawn? drawn
    have bound := (compile counter unit source).2.next.toNat_lt
    have enough : ({} : LabelCounter).next.toNat + labelsWanted source ≤ maxNumber.toNat := by
      simp only [maxNumber, UInt32.reduceToNat, UInt32.toNat_zero]
      omega
    obtain ⟨after, own⟩ := exists_drawn? enough
    have alone : (compileAlone unit source).1 ≠ .error (.broken .labelsExhausted) :=
      (compile_of_plenty unit own).2.1
    refine ⟨?_, by rw [reached, drawnAlone_eq alone]⟩
    rw [outcome_eq_relabel fits alone plenty _ fun number below => label_eq_shift drawn below]
    simp only [UInt32.ofNat_toNat]
  · exact absurd exhausted plenty

end LabelCounter

namespace Compiler

/-- Units are compiled in order, each with the compiler that those before it leave. -/
theorem compileAll_append {σ : Type} [LabelSource σ] (compiler : Compiler σ)
    (before behind : List (String × String)) :
    compiler.compileAll (before ++ behind) =
      ((compiler.compileAll before).1 ++ ((compiler.compileAll before).2.compileAll behind).1,
        ((compiler.compileAll before).2.compileAll behind).2) := by
  induction before generalizing compiler with
  | nil => rfl
  | cons unit before inductionHypothesis =>
      simp only [List.cons_append, compileAll, inductionHypothesis]

/-- Every unit has an outcome. -/
theorem length_compileAll {σ : Type} [LabelSource σ] (compiler : Compiler σ)
    (units : List (String × String)) : (compiler.compileAll units).1.length = units.length := by
  induction units generalizing compiler with
  | nil => rfl
  | cons unit units inductionHypothesis => exact congrArg Nat.succ (inductionHypothesis _)

/-- The counter moves on by what each unit draws on its own, whether it fails or not. -/
theorem next_of_compileAll (compiler : Compiler LabelCounter) {units : List (String × String)}
    (fits : ∀ unit ∈ units, unit.2.utf8ByteSize ≤ Span.maxOffset)
    (plenty : ∀ outcome ∈ (compiler.compileAll units).1,
      outcome ≠ .error (.broken .labelsExhausted)) :
    (compiler.compileAll units).2.labels.next.toNat =
      compiler.labels.next.toNat + (units.map fun unit => drawnAlone unit.2).sum := by
  induction units generalizing compiler with
  | nil => rfl
  | cons unit units inductionHypothesis =>
      obtain ⟨fitsFirst, fitsOthers⟩ := List.forall_mem_cons.1 fits
      obtain ⟨plentyFirst, plentyOthers⟩ := List.forall_mem_cons.1 plenty
      rw [List.map_cons, List.sum_cons, ← Nat.add_assoc,
        ← (LabelCounter.outcome_eq_shift fitsFirst plentyFirst).2]
      exact inductionHypothesis _ fitsOthers plentyOthers

end Compiler

/-! ## Units at the same time -/

namespace Workshop

/-- A call that is not over has a source of bounded length, and no more labels than it wants. -/
structure Modest (task : Task) : Prop where
  fits : task.source.utf8ByteSize ≤ Span.maxOffset
  few : task.received.length ≤ labelsWanted task.source

variable {workshop first last : Workshop} {count : Nat}

/-- A call that wants one more label has fewer than are wanted. -/
theorem Modest.draw {task : Task} (modest : Modest task) (label : Label)
    (wants : task.outcome = .error (.broken .labelsExhausted)) :
    Modest { task with received := task.received ++ [label] } := by
  refine ⟨modest.fits, ?_⟩
  rcases compile_cases (⟨task.received⟩ : Supply) task.unit task.source with
    ⟨_, plenty, _⟩ | ⟨short, _⟩
  · exact absurd wants plenty
  · have fewer : task.received.length < labelsWanted task.source := by
      rw [Supply.drawn?_eq, ite_eq_right_iff] at short
      by_contra enough
      exact absurd (short (Nat.le_of_not_lt enough)) nofun
    show (task.received ++ [label]).length ≤ labelsWanted task.source
    rw [List.length_append, List.length_singleton]
    exact fewer

/-- A step leaves every compiler with no more labels than it wants. -/
theorem modest_step (step : Step count workshop last)
    (modest : ∀ compiler, ∀ task ∈ workshop.tasks compiler, Modest task) :
    ∀ compiler, ∀ task ∈ last.tasks compiler, Modest task := by
  have update (compiler : Nat) {busy : Option Task} (own : ∀ task ∈ busy, Modest task) :
      ∀ other, ∀ task ∈ Function.update workshop.tasks compiler busy other, Modest task :=
    (Function.forall_update_iff workshop.tasks
      (p := fun _ busy => ∀ task ∈ busy, Modest task)).2 ⟨own, fun other _ => modest other⟩
  cases step with
  | @start _ compiler unit source idle fits =>
      refine update compiler ?_
      rintro _ ⟨⟩
      exact ⟨fits, Nat.zero_le _⟩
  | @draw _ compiler task busy wants =>
      refine update compiler ?_
      rintro _ ⟨⟩
      exact (modest compiler task busy).draw _ wants
  | @finish _ compiler task busy ends => exact update compiler nofun
  | clone => exact modest

/-- A run leaves every compiler with no more labels than it wants. -/
theorem modest_runs (idle : ∀ compiler, first.tasks compiler = none)
    (runs : Runs count first last) : ∀ compiler, ∀ task ∈ last.tasks compiler, Modest task := by
  induction runs with
  | stay =>
      intro compiler
      rw [idle]
      exact nofun
  | step prior step inductionHypothesis => exact modest_step step (inductionHypothesis idle)

/-- A call that is over has drawn the labels that are wanted, and its outcome is that of the unit on
its own with those labels filled in. -/
theorem outcome_eq_received {task : Task} (modest : Modest task)
    (ends : task.outcome ≠ .error (.broken .labelsExhausted))
    (alone : (compileAlone task.unit task.source).1 ≠ .error (.broken .labelsExhausted)) :
    task.outcome = (compileAlone task.unit task.source).1.map
        (.relabel fun wanted => task.received.getD wanted.number.toNat ⟨0⟩) ∧
      task.received.length = drawnAlone task.source := by
  rcases compile_cases (⟨task.received⟩ : Supply) task.unit task.source with
    ⟨drawn, _⟩ | ⟨_, exhausted, _⟩
  · have enough : labelsWanted task.source ≤ task.received.length := by
      rw [Supply.drawn?_eq] at drawn
      exact (Option.ite_none_right_eq_some.1 drawn).1
    refine ⟨?_, by rw [drawnAlone_eq alone]; exact Nat.le_antisymm modest.few enough⟩
    refine outcome_eq_relabel modest.fits alone ends
      (fun number => task.received.getD number ⟨0⟩) fun number below => ?_
    have within : number < task.received.length := Nat.lt_of_lt_of_le below enough
    rw [Supply.label_eq within, List.getD_eq_getElem?_getD, List.getElem?_eq_getElem within,
      Option.getD_some]
  · exact absurd exhausted ends

end Workshop

/-! ## Any source of labels -/

/-- What a unit compiles to depends on the labels at hand by their names alone. With any source of
labels that does not run out, the outcome is that with a fresh counter, as long as that one does not
run out, with the label of each number replaced by the label that the source hands out as that
number, and as many labels are drawn. So every unit that one compiler compiles after others, failing
ones included, has its outcome on its own with labels shifted by what was drawn before, and every
call of a compiler that shares its labels ends with its outcome on its own and the labels that it
has drawn itself. -/
theorem compile_relabels :
    (∀ {τ : Type} [LabelSource τ] (first : τ) (unit source : String),
      source.utf8ByteSize ≤ Span.maxOffset →
      (compileAlone unit source).1 ≠ .error (.broken .labelsExhausted) →
      (LabelSource.drawn? first (drawnAlone source)).isSome →
      (compile first unit source).1 = (compileAlone unit source).1.map
          (.relabel fun wanted => (LabelSource.numbering first).label wanted.number.toNat) ∧
        LabelSource.drawn? first (drawnAlone source) = some (compile first unit source).2) ∧
    (∀ (compiler : Compiler LabelCounter) (before behind : List (String × String))
      (unit source : String),
      (∀ compiled ∈ before ++ [(unit, source)], compiled.2.utf8ByteSize ≤ Span.maxOffset) →
      (∀ outcome ∈ (compiler.compileAll (before ++ [(unit, source)])).1,
        outcome ≠ .error (.broken .labelsExhausted)) →
      (compiler.compileAll (before ++ (unit, source) :: behind)).1[before.length]? =
        some ((compileAlone unit source).1.map (.relabel (.shift
          (compiler.labels.next.toNat + (before.map fun unit => drawnAlone unit.2).sum))))) ∧
    ∀ {count : Nat} {first last : Workshop} {compiler : Nat} {task : Task},
      (∀ compiler, first.tasks compiler = none) → first.Runs count last →
      last.tasks compiler = some task →
      task.outcome ≠ .error (.broken .labelsExhausted) →
      (compileAlone task.unit task.source).1 ≠ .error (.broken .labelsExhausted) →
      task.outcome = (compileAlone task.unit task.source).1.map
          (.relabel fun wanted => task.received.getD wanted.number.toNat ⟨0⟩) ∧
        task.received.length = drawnAlone task.source := by
  refine ⟨?_, ?_, ?_⟩
  · intro τ _ first unit source fits alone plenty
    obtain ⟨after, drawn⟩ := Option.isSome_iff_exists.1 plenty
    rw [drawnAlone_eq alone] at drawn ⊢
    obtain ⟨left, enough, _⟩ := compile_of_plenty unit drawn
    exact ⟨outcome_eq_relabel fits alone enough _ fun _ _ => rfl, left ▸ drawn⟩
  · intro compiler before behind unit source fits plenty
    obtain ⟨fitsBefore, fits⟩ := List.forall_mem_append.1 fits
    have split := congrArg Prod.fst (compiler.compileAll_append before [(unit, source)])
    rw [split] at plenty
    obtain ⟨plentyBefore, plenty⟩ := List.forall_mem_append.1 plenty
    rw [compiler.compileAll_append, ← compiler.next_of_compileAll fitsBefore plentyBefore,
      ← (LabelCounter.outcome_eq_shift (fits _ List.mem_cons_self)
        (plenty _ List.mem_cons_self)).1, ← compiler.length_compileAll before]
    rw [List.getElem?_append_right (Nat.le_refl _), Nat.sub_self]
    rfl
  · intro count first last compiler task idle runs busy ends alone
    exact Workshop.outcome_eq_received (Workshop.modest_runs idle runs compiler task busy) ends alone

/-- Labels that start again within a unit, a counter on which a unit fails between two others, and
two compilers that take turns. -/
theorem compile_relabels_of_turns :
    ∃ loop bare : String,
      drawnAlone loop = 2 ∧ drawnAlone bare = 2 ∧
      ((compile (⟨4294967295, 1⟩ : SharedLabels) "A" loop).1 =
        (compileAlone "A" loop).1.map (.relabel fun wanted =>
          (LabelSource.numbering (⟨4294967295, 1⟩ : SharedLabels)).label wanted.number.toNat)) ∧
      (((⟨⟨7⟩⟩ : Compiler LabelCounter).compileAll
        [("A", loop), ("B", bare), ("A", loop)]).1[2]? =
          some ((compileAlone "A" loop).1.map (.relabel (.shift 11)))) ∧
      ∃ (last : Workshop) (task : Task),
        Workshop.Runs 4 ⟨⟨4294967295, 2⟩, fun _ => none, []⟩ last ∧ last.tasks 0 = some task ∧
        task.received = [⟨4294967295⟩, ⟨2⟩] ∧
        task.outcome = (compileAlone task.unit task.source).1.map
          (.relabel fun wanted => task.received.getD wanted.number.toNat ⟨0⟩) := by
  let loop := "class A\x7bfunction int f()\x7bwhile(0)\x7b\x7dreturn 1;\x7d\x7d"
  let bare := "class B\x7bfunction int f()\x7bwhile(0)\x7b\x7dreturn\x7d\x7d"
  let shared : SharedLabels := ⟨4294967295, 1⟩
  let first : Workshop := ⟨⟨4294967295, 2⟩, fun _ => none, []⟩
  have loopFits : loop.utf8ByteSize ≤ Span.maxOffset := by decide +kernel
  have bareFits : bare.utf8ByteSize ≤ Span.maxOffset := by decide +kernel
  have alone : (compileAlone "A" loop).1 ≠ .error (.broken .labelsExhausted) := by decide +kernel
  have turns : ∃ (last : Workshop) (task : Task), Workshop.Runs 4 first last ∧
      last.tasks 0 = some task ∧ task.unit = "A" ∧ task.source = loop ∧
      task.received = [⟨4294967295⟩, ⟨2⟩] := by
    refine ⟨_, _, .step (.step (.step (.step (.step (.step (.stay first)
      (@Workshop.Step.start _ 0 "A" loop rfl loopFits))
      (@Workshop.Step.start _ 1 "A" loop rfl loopFits))
      (@Workshop.Step.draw _ 0 _ rfl (by decide +kernel)))
      (@Workshop.Step.draw _ 1 _ rfl (by decide +kernel)))
      (@Workshop.Step.draw _ 1 _ rfl (by decide +kernel)))
      (@Workshop.Step.draw _ 0 _ rfl (by decide +kernel)), rfl, rfl, rfl, by decide +kernel⟩
  obtain ⟨last, ⟨_, _, _⟩, runs, busy, rfl, rfl, rfl⟩ := turns
  refine ⟨loop, bare, by decide +kernel, by decide +kernel, ?_, ?_, last, _, runs, busy, rfl, ?_⟩
  · exact (compile_relabels.1 shared "A" loop loopFits alone (by decide +kernel)).1
  · refine (compile_relabels.2.1 ⟨⟨7⟩⟩ [("A", loop), ("B", bare)] [] "A" loop ?_
      (by decide +kernel)).trans ?_
    · simp [loopFits, bareFits]
    · have distance :
          7 + ([("A", loop), ("B", bare)].map fun unit => drawnAlone unit.2).sum = 11 := by
        decide +kernel
      exact congrArg (fun count =>
        some ((compileAlone "A" loop).1.map (CompiledUnit.relabel (.shift count)))) distance
  · exact (compile_relabels.2.2 (fun _ => rfl) runs busy (by decide +kernel) alone).1

end JackCompiler
