import Std.Data.HashMap
import JackCompiler.Symbol.Storage
import JackCompiler.Text.Decimal
import JackCompiler.Text.Quoted

/-!
# Symbol tables

A symbol table belongs to one scope. Names are defined one after another; each definition takes
the next number of its storage class, also when it redefines a name, so numbers are never reused.
A storage class holds at most 65535 definitions.
-/

namespace JackCompiler

/-- A defined name. -/
structure Symbol (κ : Type) where
  name : String
  /-- The declared type: `int`, `char`, `boolean` or the name of a class. -/
  type : String
  storage : κ
  /-- The number of the definition within its storage class. -/
  index : UInt16
  deriving DecidableEq

namespace Symbol

/-- The written form, which names every component. -/
def text {κ : Type} [StorageClass κ] (symbol : Symbol κ) : String :=
  "Symbol \x7b name: " ++ Text.quotedText symbol.name ++
    ", ty: " ++ Text.quotedText symbol.type ++
    ", storage: " ++ StorageClass.name symbol.storage ++
    ", index: " ++ Text.decimal symbol.index.toNat ++ " \x7d"

end Symbol

/-- The symbols of a scope. -/
structure SymbolTable (κ : Type) where
  symbols : Std.HashMap String (Symbol κ)
  /-- How many definitions each storage class has seen. -/
  counts : Vector UInt16 2

namespace SymbolTable

variable {κ : Type}

/-- The number of definitions a storage class can hold. -/
def maxCount : UInt16 := 65535

/-- A table without symbols. -/
def empty : SymbolTable κ := ⟨∅, #v[0, 0]⟩

instance : Inhabited (SymbolTable κ) := ⟨empty⟩

/-- The symbol a name stands for. -/
def lookup? (table : SymbolTable κ) (name : String) : Option (Symbol κ) :=
  table.symbols[name]?

/-- Whether a name is defined. -/
def contains (table : SymbolTable κ) (name : String) : Bool :=
  table.symbols.contains name

/-- How many different names are defined. -/
def size (table : SymbolTable κ) : Nat := table.symbols.size

/-- Whether no name is defined. -/
def isEmpty (table : SymbolTable κ) : Bool := table.symbols.isEmpty

@[simp] theorem lookup?_empty (name : String) : (empty : SymbolTable κ).lookup? name = none := by
  simp [empty, lookup?]

variable [StorageClass κ]

/-- How many definitions a storage class has seen. -/
def count (table : SymbolTable κ) (storage : κ) : UInt16 :=
  table.counts[StorageClass.slot storage]

/-- Defines a name as the next symbol of a storage class, replacing what the name stood for. There
is no result when the storage class is full. -/
def define? (table : SymbolTable κ) (name type : String) (storage : κ) :
    Option (Symbol κ × SymbolTable κ) :=
  let index := table.count storage
  if index = maxCount then
    none
  else
    let symbol : Symbol κ := ⟨name, type, storage, index⟩
    some (symbol, {
      symbols := table.symbols.insert name symbol
      counts := table.counts.set (StorageClass.slot storage) (index + 1) })

@[simp] theorem count_empty (storage : κ) : (empty : SymbolTable κ).count storage = 0 := by
  have each : ∀ slot : Fin 2, (#v[0, 0] : Vector UInt16 2)[slot] = 0 := by decide
  exact each (StorageClass.slot storage)

/-- Only a full storage class refuses a definition. -/
theorem define?_eq_none_iff {table : SymbolTable κ} {name type : String} {storage : κ} :
    table.define? name type storage = none ↔ table.count storage = maxCount := by
  simp only [define?]
  split <;> simp_all

/-- What a definition yields is the new symbol, numbered by the definitions before it. -/
theorem symbol_of_define? {table after : SymbolTable κ} {name type : String} {storage : κ}
    {symbol : Symbol κ} (defined : table.define? name type storage = some (symbol, after)) :
    symbol = ⟨name, type, storage, table.count storage⟩ := by
  simp only [define?] at defined
  split at defined
  · cases defined
  · cases defined
    rfl

/-- After a definition its name stands for the new symbol, and other names for what they did. -/
theorem lookup?_of_define? {table after : SymbolTable κ} {name type : String} {storage : κ}
    {symbol : Symbol κ} (defined : table.define? name type storage = some (symbol, after))
    (sought : String) :
    after.lookup? sought = if name = sought then some symbol else table.lookup? sought := by
  simp only [define?] at defined
  split at defined
  · cases defined
  · cases defined
    simp [lookup?, Std.HashMap.getElem?_insert]

/-- A definition counts in its own storage class alone. -/
theorem count_of_define? [DecidableEq κ] {table after : SymbolTable κ} {name type : String}
    {storage : κ} {symbol : Symbol κ}
    (defined : table.define? name type storage = some (symbol, after)) (counted : κ) :
    after.count counted =
      if counted = storage then table.count storage + 1 else table.count counted := by
  simp only [define?] at defined
  split at defined
  · cases defined
  · cases defined
    simp only [count, Fin.getElem_fin, Vector.getElem_set]
    by_cases same : counted = storage
    · simp [same]
    · have apart : (StorageClass.slot storage).val ≠ (StorageClass.slot counted).val := by
        intro equal
        exact same (StorageClass.slot_injective (Fin.ext equal)).symm
      simp [same, apart]

/-- Whether one symbol is listed before another: by storage class, then by number. -/
def listedBefore (left right : Symbol κ) : Bool :=
  let leftSlot := StorageClass.slot left.storage
  let rightSlot := StorageClass.slot right.storage
  leftSlot < rightSlot || (leftSlot = rightSlot && left.index ≤ right.index)

/-- The symbols of the table in the order of their storage classes and numbers. -/
def listing (table : SymbolTable κ) : List (Symbol κ) :=
  table.symbols.values.mergeSort listedBefore

/-- The written form of the listing. -/
def text (table : SymbolTable κ) : String :=
  Text.bracketed (table.listing.map Symbol.text)

end SymbolTable

end JackCompiler
