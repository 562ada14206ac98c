import JackCompiler.Machine.Segment

/-!
# Storage classes

A scope keeps its variables in two storage classes. Each of them is numbered on its own and lives
in a memory segment of its own.
-/

namespace JackCompiler

/-- The two storage classes of a scope. -/
class StorageClass (κ : Type) where
  /-- The display name. -/
  name : κ → String
  /-- The place of a storage class among the two. -/
  slot : κ → Fin 2
  /-- The memory segment its variables live in. -/
  segment : κ → Segment
  /-- No two storage classes of a scope have the same place. -/
  slot_injective : ∀ {left right : κ}, slot left = slot right → left = right
  /-- No two storage classes of a scope share a segment. -/
  segment_injective : ∀ {left right : κ}, segment left = segment right → left = right

/-- The storage classes of a class. -/
inductive ClassStorage
  /-- One variable for the whole program. -/
  | static
  /-- One variable in every object. -/
  | field
  deriving DecidableEq

/-- The storage classes of a subroutine. -/
inductive SubroutineStorage
  | argument
  | local
  deriving DecidableEq

namespace ClassStorage

instance : StorageClass ClassStorage where
  name
    | .static => "Static"
    | .field => "Field"
  slot
    | .static => 0
    | .field => 1
  segment
    | .static => .static
    | .field => .this
  slot_injective := by
    intro left right same
    cases left <;> cases right <;> first | rfl | simp at same
  segment_injective := by
    intro left right same
    cases left <;> cases right <;> first | rfl | cases same

end ClassStorage

namespace SubroutineStorage

instance : StorageClass SubroutineStorage where
  name
    | .argument => "Argument"
    | .local => "Local"
  slot
    | .argument => 0
    | .local => 1
  segment
    | .argument => .argument
    | .local => .local
  slot_injective := by
    intro left right same
    cases left <;> cases right <;> first | rfl | simp at same
  segment_injective := by
    intro left right same
    cases left <;> cases right <;> first | rfl | cases same

end SubroutineStorage

end JackCompiler
