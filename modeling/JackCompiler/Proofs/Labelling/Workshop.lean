import JackCompiler.Proofs.Labelling.Draws
import Mathlib.Logic.Function.Basic
import Mathlib.Algebra.Group.Nat.Defs

/-!
# Compilers at work together

Compilers that hold handles to the same labels work at the same time: whenever one of them draws a
label, others may have drawn some in between. What a compiler does between two draws depends on its
source and on the labels it has received, and on nothing that others do. So the state of a call is
the list of those labels, and the pass itself says, when it is run on them alone, whether the call
wants another one and else how it ends.

`Workshop.runs_compile` says that these steps are those of the compiler: a call that nobody
interrupts does what `compile` does.
-/

namespace JackCompiler

/-- Labels that are at hand. -/
structure Supply where
  labels : List Label

namespace Supply

/-- A supply hands out its labels from the first one on. -/
instance : LabelSource Supply where
  draw? supply :=
    match supply.labels with
    | [] => none
    | label :: others => some (label, ⟨others⟩)

/-- Draws take labels off the front. -/
theorem drawn?_eq (labels : List Label) (number : Nat) :
    LabelSource.drawn? (⟨labels⟩ : Supply) number =
      if number ≤ labels.length then some ⟨labels.drop number⟩ else none := by
  induction number with
  | zero => rfl
  | succ number inductionHypothesis =>
      rw [LabelSource.drawn?, inductionHypothesis]
      rcases Nat.lt_trichotomy number labels.length with below | ended | past
      · rw [if_pos (Nat.le_of_lt below), if_pos (Nat.succ_le_of_lt below),
          List.drop_eq_getElem_cons below]
        rfl
      · rw [if_pos (Nat.le_of_eq ended), if_neg (by omega), ended, List.drop_length]
        rfl
      · rw [if_neg (by omega), if_neg (by omega)]
        rfl

/-- The labels are numbered by their places. -/
theorem label_eq {labels : List Label} {number : Nat} (below : number < labels.length) :
    (LabelSource.numbering (⟨labels⟩ : Supply)).label number = labels[number] := by
  show ((Option.bind (LabelSource.drawn? _ number) LabelSource.draw?).map Prod.fst).getD ⟨0⟩ = _
  rw [drawn?_eq, if_pos (Nat.le_of_lt below), List.drop_eq_getElem_cons below]
  rfl

end Supply

namespace SharedLabels

/-- The labels after a number of draws through any handles. -/
def skip (labels : SharedLabels) (number : Nat) : SharedLabels :=
  { labels with next := labels.next + UInt32.ofNat number }

/-- The label that is drawn after a number of others. -/
def label (labels : SharedLabels) (number : Nat) : Label :=
  ⟨labels.next + UInt32.ofNat number⟩

variable (labels : SharedLabels) (number : Nat)

theorem skip_zero : labels.skip 0 = labels := by
  show ({ labels with next := labels.next + 0 } : SharedLabels) = labels
  rw [UInt32.add_zero]

/-- What is drawn behind others is the label of their number. -/
theorem draw_skip :
    (labels.skip number).draw = (labels.label number, labels.skip (number + 1)) := by
  have next : labels.next + UInt32.ofNat number + 1 = labels.next + UInt32.ofNat (number + 1) := by
    rw [UInt32.add_assoc, UInt32.ofNat_add]
    rfl
  rw [draw, skip, skip, next]
  rfl

/-- As many labels can be drawn from handles as one likes. -/
theorem drawn?_eq : LabelSource.drawn? labels number = some (labels.skip number) := by
  induction number with
  | zero => rw [labels.skip_zero]; rfl
  | succ number inductionHypothesis =>
      rw [LabelSource.drawn?, inductionHypothesis, Option.bind_some]
      show Option.map Prod.snd (some (labels.skip number).draw) = _
      rw [draw_skip]
      rfl

/-- The labels of handles are numbered from the next one on. -/
theorem label_eq : (LabelSource.numbering labels).label number = labels.label number := by
  show ((Option.bind (LabelSource.drawn? labels number) LabelSource.draw?).map Prod.fst).getD ⟨0⟩ =
    labels.label number
  rw [drawn?_eq]
  rfl

end SharedLabels

/-- A call of a compiler that is not over. -/
structure Task where
  unit : String
  source : String
  /-- The labels that the call has drawn. -/
  received : List Label

/-- How a call ends with the labels that it has drawn, unless it wants more. -/
def Task.outcome (task : Task) : Except Failure CompiledUnit :=
  (compile (⟨task.received⟩ : Supply) task.unit task.source).1

/-- Compilers that hold handles to the same labels. -/
structure Workshop where
  labels : SharedLabels
  /-- What each compiler is at. -/
  tasks : Nat → Option Task
  /-- How the calls ended that are over, in the order in which they did. -/
  outcomes : List (Except Failure CompiledUnit)

namespace Workshop

open Function (update)

/-- A step of one of the compilers, with the number of labels that are drawn by it. -/
inductive Step : Nat → Workshop → Workshop → Prop
  | start {workshop : Workshop} {compiler : Nat} {unit source : String}
      (idle : workshop.tasks compiler = none) (fits : source.utf8ByteSize ≤ Span.maxOffset) :
      Step 0 workshop
        { workshop with tasks := update workshop.tasks compiler (some ⟨unit, source, []⟩) }
  | draw {workshop : Workshop} {compiler : Nat} {task : Task}
      (busy : workshop.tasks compiler = some task)
      (wants : task.outcome = .error (.broken .labelsExhausted)) :
      Step 1 workshop
        { workshop with
          labels := workshop.labels.draw.2
          tasks := update workshop.tasks compiler
            (some { task with received := task.received ++ [workshop.labels.draw.1] }) }
  | finish {workshop : Workshop} {compiler : Nat} {task : Task}
      (busy : workshop.tasks compiler = some task)
      (ends : task.outcome ≠ .error (.broken .labelsExhausted)) :
      Step 0 workshop
        { workshop with
          tasks := update workshop.tasks compiler none
          outcomes := workshop.outcomes ++ [task.outcome] }
  /-- One more compiler gets a handle. -/
  | clone {workshop : Workshop} :
      Step 0 workshop { workshop with labels := workshop.labels.addHandle }

/-- Steps of all compilers in any order, with the number of labels that are drawn. -/
inductive Runs : Nat → Workshop → Workshop → Prop
  | stay (workshop : Workshop) : Runs 0 workshop workshop
  | step {before drawn : Nat} {first middle last : Workshop} (prior : Runs before first middle)
      (step : Step drawn middle last) : Runs (before + drawn) first last

variable {workshop : Workshop} {compiler : Nat} {unit source : String}

/-- A workshop in which a call has drawn the next so many labels, and nothing else has changed. -/
def midway (workshop : Workshop) (compiler : Nat) (unit source : String) (number : Nat) :
    Workshop where
  labels := workshop.labels.skip number
  tasks := update workshop.tasks compiler
    (some ⟨unit, source, (List.range number).map workshop.labels.label⟩)
  outcomes := workshop.outcomes

/-- A call that nobody interrupts draws one label after another, up to those that are wanted. -/
theorem runs_midway (idle : workshop.tasks compiler = none)
    (fits : source.utf8ByteSize ≤ Span.maxOffset) (number : Nat)
    (wanted : number ≤ labelsWanted source) :
    Runs number workshop (workshop.midway compiler unit source number) := by
  induction number with
  | zero =>
      rw [midway, SharedLabels.skip_zero]
      exact .step (.stay workshop) (.start idle fits)
  | succ number inductionHypothesis =>
      have short : LabelSource.drawn?
          (⟨(List.range number).map workshop.labels.label⟩ : Supply) (labelsWanted source) =
            none := by
        rw [Supply.drawn?_eq, List.length_map, List.length_range, if_neg (by omega)]
      have busy : (workshop.midway compiler unit source number).tasks compiler =
          some ⟨unit, source, (List.range number).map workshop.labels.label⟩ :=
        Function.update_self ..
      have step := Step.draw busy (compile_of_shortage unit short)
      simp only [midway, SharedLabels.draw_skip, Function.update_idem] at step
      refine .step (inductionHypothesis (Nat.le_of_lt wanted)) ?_
      simp only [midway, List.range_succ, List.map_append, List.map_cons, List.map_nil]
      exact step

/-- A call that nobody interrupts does what the compiler does with the labels of the workshop. -/
theorem runs_compile (idle : workshop.tasks compiler = none)
    (fits : source.utf8ByteSize ≤ Span.maxOffset) :
    Runs (labelsWanted source) workshop
      { workshop with
        labels := (compile workshop.labels unit source).2
        outcomes := workshop.outcomes ++ [(compile workshop.labels unit source).1] } := by
  let received := (List.range (labelsWanted source)).map workshop.labels.label
  have length : received.length = labelsWanted source := by simp [received]
  have plenty : LabelSource.drawn? (⟨received⟩ : Supply) (labelsWanted source) =
      some ⟨received.drop (labelsWanted source)⟩ := by
    rw [Supply.drawn?_eq, if_pos (Nat.le_of_eq length.symm)]
  have outcome : (⟨unit, source, received⟩ : Task).outcome =
      (compile workshop.labels unit source).1 := by
    refine outcome_eq_of_labels unit fits plenty (workshop.labels.drawn?_eq _) ?_
    intro number (below : number < labelsWanted source)
    rw [Supply.label_eq (length.symm ▸ below), SharedLabels.label_eq]
    simp [received]
  have busy : (workshop.midway compiler unit source (labelsWanted source)).tasks compiler =
      some ⟨unit, source, received⟩ := Function.update_self ..
  have step := Step.finish busy (compile_of_plenty unit plenty).2.1
  simp only [midway, outcome, Function.update_idem, ← idle, Function.update_eq_self] at step
  rw [(compile_of_plenty unit (workshop.labels.drawn?_eq _)).1]
  exact .step (runs_midway idle fits _ (Nat.le_refl _)) step

end Workshop

end JackCompiler
