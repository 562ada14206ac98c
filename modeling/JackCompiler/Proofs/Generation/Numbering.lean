import JackCompiler.Compilation.Step
import Mathlib.Algebra.Group.Nat.Defs

/-!
# Numbered labels

A label source hands out its labels in some order. A numbering names them by their place in that
order, which is how the code of a syntax tree speaks about labels. Every source has a numbering from
any state on; that of a counter are the numbers of its labels themselves.
-/

namespace JackCompiler

/-- The labels of a source by number, and the number at which a state of the source stands. -/
structure LabelSource.Numbering (σ : Type) [LabelSource σ] where
  label : Nat → Label
  Stands : Nat → σ → Prop
  /-- Drawing hands out the label of the number where the source stands, and moves on by one. -/
  draws : ∀ {number : Nat} {labels after : σ} {drawn : Label}, Stands number labels →
    LabelSource.draw? labels = some (drawn, after) →
      drawn = label number ∧ Stands (number + 1) after

namespace LabelSource

variable {σ : Type} [LabelSource σ]

/-- What is left of a source after a number of draws, unless it runs out before. -/
def drawn? (labels : σ) : Nat → Option σ
  | 0 => some labels
  | count + 1 => (drawn? labels count).bind fun left => (draw? left).map Prod.snd

/-- The numbering of the labels of a source from a given state on. -/
def numbering (labels : σ) : Numbering σ where
  label number := (((drawn? labels number).bind draw?).map Prod.fst).getD ⟨0⟩
  Stands number left := drawn? labels number = some left
  draws := by
    intro number left after label stands drawn
    constructor
    · simp [stands, drawn]
    · simp [drawn?, stands, drawn]

theorem numbering_stands (labels : σ) : (numbering labels).Stands 0 labels := rfl

/-- The next labels that are drawn from a source, up to a number of them, are all different. -/
def Distinct (labels : σ) (count : Nat) : Prop :=
  ∀ ⦃first second : Nat⦄ ⦃left right left' right' : σ⦄ ⦃label : Label⦄,
    first < count → second < count →
    drawn? labels first = some left → draw? left = some (label, left') →
    drawn? labels second = some right → draw? right = some (label, right') → first = second

/-- What was drawn before further draws are the labels of the first numbers. -/
theorem exists_drawn {labels after : σ} {count number : Nat}
    (drawn : drawn? labels count = some after) (below : number < count) :
    ∃ left next, drawn? labels number = some left ∧
      draw? left = some ((numbering labels).label number, next) := by
  induction count generalizing after with
  | zero => exact absurd below (Nat.not_lt_zero _)
  | succ count inductionHypothesis =>
      obtain ⟨left, before, moved⟩ := Option.bind_eq_some_iff.1 drawn
      obtain ⟨⟨label, next⟩, found, rfl⟩ := Option.map_eq_some_iff.1 moved
      rcases Nat.lt_succ_iff_lt_or_eq.1 below with smaller | rfl
      · exact inductionHypothesis before smaller
      · exact ⟨left, next, before, by simp [numbering, before, found]⟩

/-- Where the labels drawn are different, different numbers have different labels. -/
theorem Distinct.label_injective {labels after : σ} {count first second : Nat}
    (distinct : Distinct labels count) (drawn : drawn? labels count = some after)
    (firstBelow : first < count) (secondBelow : second < count)
    (same : (numbering labels).label first = (numbering labels).label second) :
    first = second := by
  obtain ⟨_, _, before, found⟩ := exists_drawn drawn firstBelow
  obtain ⟨_, _, before', found'⟩ := exists_drawn drawn secondBelow
  rw [same] at found
  exact distinct firstBelow secondBelow before found before' found'

end LabelSource

namespace LabelCounter

/-- The labels of a counter are numbered by themselves. -/
def numbering : LabelSource.Numbering LabelCounter where
  label number := ⟨UInt32.ofNat number⟩
  Stands number counter := counter.next.toNat = number
  draws := by
    intro number counter after drawn stands step
    obtain ⟨same, next⟩ := next_of_draw? step
    constructor
    · rw [← stands, UInt32.ofNat_toNat, ← same]
    · rw [next, stands]

theorem number_label {number : Nat} (below : number < 2 ^ 32) :
    (numbering.label number).number.toNat = number :=
  UInt32.toNat_ofNat_of_lt' below

theorem next_of_drawn? {counter after : LabelCounter} {count : Nat}
    (drawn : LabelSource.drawn? counter count = some after) :
    after.next.toNat = counter.next.toNat + count := by
  induction count generalizing after with
  | zero =>
      cases drawn
      rfl
  | succ count inductionHypothesis =>
      obtain ⟨left, before, moved⟩ := Option.bind_eq_some_iff.1 drawn
      obtain ⟨⟨label, next⟩, found, rfl⟩ := Option.map_eq_some_iff.1 moved
      rw [(next_of_draw? found).2, inductionHypothesis before, Nat.add_assoc]

/-- However many labels are drawn from a counter, they are different. -/
theorem distinct (counter : LabelCounter) (count : Nat) : LabelSource.Distinct counter count := by
  intro first second left right _ _ label _ _ drawn found drawn' found'
  have same : left.next = right.next :=
    (next_of_draw? found).1.symm.trans (next_of_draw? found').1
  have ofFirst := next_of_drawn? drawn
  have ofSecond := next_of_drawn? drawn'
  rw [same] at ofFirst
  omega

end LabelCounter

end JackCompiler
