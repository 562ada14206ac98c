import JackCompiler.Text.Decimal

/-!
# Labels

Branch targets are numbered labels. They are global in the target machine, so all units of a
program draw them from one source. A counter hands out each number at most once and refuses when
none is left; shared labels are one sequence drawn through any number of handles.
-/

namespace JackCompiler

/-- A branch target. -/
structure Label where
  number : UInt32
  deriving DecidableEq

namespace Label

/-- A label in instructions, `LBL_N`. -/
def text (label : Label) : String := "LBL_" ++ Text.decimal label.number.toNat

/-- Labels are ordered by their numbers. -/
instance : Ord Label where
  compare left right := compare left.number right.number

end Label

/-- Something that labels can be drawn from. -/
class LabelSource (σ : Type) where
  /-- The next label and the source after it, or no result when no label is left. -/
  draw? : σ → Option (Label × σ)

/-- Draws labels in the order of their numbers. -/
structure LabelCounter where
  /-- The number of the next label, which is also how many were drawn when counting from zero. -/
  next : UInt32 := 0
  deriving DecidableEq

namespace LabelCounter

/-- The largest label number; the counter stops there and never hands it out. -/
def maxNumber : UInt32 := 4294967295

/-- The next label. -/
def draw? (counter : LabelCounter) : Option (Label × LabelCounter) :=
  if counter.next = maxNumber then none
  else some (⟨counter.next⟩, ⟨counter.next + 1⟩)

instance : LabelSource LabelCounter := ⟨draw?⟩

/-- A counter refuses only at its end. -/
theorem draw?_eq_none_iff {counter : LabelCounter} :
    counter.draw? = none ↔ counter.next = maxNumber := by
  simp only [draw?]
  split <;> simp_all

/-- A label that is drawn has the counter's number, and the counter moves on by one. -/
theorem next_of_draw? {counter after : LabelCounter} {label : Label}
    (drawn : counter.draw? = some (label, after)) :
    label.number = counter.next ∧ after.next.toNat = counter.next.toNat + 1 := by
  simp only [draw?] at drawn
  split at drawn
  · cases drawn
  · next below =>
      cases drawn
      have bound := counter.next.toNat_lt
      have apart : counter.next.toNat ≠ 4294967295 := fun equal =>
        below (UInt32.toNat_inj.1 (by simpa [maxNumber] using equal))
      refine ⟨rfl, ?_⟩
      rw [UInt32.toNat_add]
      simp
      omega

end LabelCounter

/-- One sequence of labels that is drawn through several handles. All handles continue the same
sequence, which starts again from zero after the largest 32-bit number. -/
structure SharedLabels where
  next : UInt32 := 0
  /-- How many handles there are. -/
  handles : Nat := 1
  deriving DecidableEq

namespace SharedLabels

/-- Draws the next label of the sequence, through whichever handle. -/
def draw (labels : SharedLabels) : Label × SharedLabels :=
  (⟨labels.next⟩, { labels with next := labels.next + 1 })

/-- Adds a handle to the same sequence. -/
def addHandle (labels : SharedLabels) : SharedLabels :=
  { labels with handles := labels.handles + 1 }

instance : LabelSource SharedLabels := ⟨fun labels => some labels.draw⟩

end SharedLabels

end JackCompiler
