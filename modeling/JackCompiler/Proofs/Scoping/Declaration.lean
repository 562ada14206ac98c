import JackCompiler.Symbol.Scope

/-!
# Declarations and what names stand for

The declarations of a scope as a plain sequence, the latest first. What a name stands for is read
off that sequence, and `SymbolTable.Records` says that a symbol table gives the same answers. Tables
are filled by `define?` alone, so this relation is all that proofs about filled tables need.
-/

namespace JackCompiler

/-- A variable as it is declared, without a number. -/
structure Declaration (κ : Type) where
  name : String
  type : String
  storage : κ

namespace Declaration

variable {κ : Type} [DecidableEq κ]

/-- How many declarations belong to a storage class. -/
def count (declared : List (Declaration κ)) (storage : κ) : Nat :=
  declared.countP fun declaration => declaration.storage = storage

/-- What a name stands for: its latest declaration, numbered by the declarations of the same storage
class before it. -/
def symbol? : List (Declaration κ) → String → Option (Symbol κ)
  | [], _ => none
  | latest :: earlier, name =>
      if latest.name = name then
        some ⟨latest.name, latest.type, latest.storage,
          UInt16.ofNat (count earlier latest.storage)⟩
      else
        symbol? earlier name

@[simp] theorem count_nil (storage : κ) : count ([] : List (Declaration κ)) storage = 0 := rfl

/-- The latest declaration counts for its own storage. -/
theorem count_cons (latest : Declaration κ) (earlier : List (Declaration κ)) (storage : κ) :
    count (latest :: earlier) storage =
      count earlier storage + if latest.storage = storage then 1 else 0 := by
  simp [count, List.countP_cons]

/-- As many are declared in two sequences as in each of them. -/
theorem count_append (left right : List (Declaration κ)) (storage : κ) :
    count (left ++ right) storage = count left storage + count right storage :=
  List.countP_append

/-- The order of declarations does not matter for their number. -/
@[simp] theorem count_reverse (declared : List (Declaration κ)) (storage : κ) :
    count declared.reverse storage = count declared storage :=
  List.countP_reverse

/-- Declarations of one storage class all count. -/
theorem count_eq_length {declared : List (Declaration κ)} {storage : κ}
    (alike : ∀ declaration ∈ declared, declaration.storage = storage) :
    count declared storage = declared.length := by
  rw [count, List.countP_eq_length]
  exact fun declaration member => decide_eq_true (alike declaration member)

/-- Declarations of other storage classes do not count. -/
theorem count_eq_zero {declared : List (Declaration κ)} {storage : κ}
    (others : ∀ declaration ∈ declared, declaration.storage ≠ storage) :
    count declared storage = 0 := by
  rw [count, List.countP_eq_zero]
  exact fun declaration member => by simpa using others declaration member

/-- Exactly the declared names stand for something. -/
theorem isSome_symbol?_iff {declared : List (Declaration κ)} {name : String} :
    (symbol? declared name).isSome ↔ ∃ declaration ∈ declared, declaration.name = name := by
  induction declared with
  | nil => simp [symbol?]
  | cons latest earlier inductionHypothesis =>
      by_cases same : latest.name = name
      · simp [symbol?, same]
      · simp [symbol?, same, inductionHypothesis]

/-- A variable is numbered below the number of declarations in its storage class. -/
theorem index_lt_count {declared : List (Declaration κ)} {name : String} {symbol : Symbol κ}
    (found : symbol? declared name = some symbol) :
    symbol.index.toNat < count declared symbol.storage := by
  induction declared with
  | nil => cases found
  | cons latest earlier inductionHypothesis =>
      rw [symbol?] at found
      rw [count_cons]
      split at found
      · cases found
        have number := Nat.mod_le (count earlier latest.storage) UInt16.size
        rw [if_pos rfl, UInt16.toNat_ofNat']
        exact Nat.lt_succ_of_le number
      · exact Nat.lt_of_lt_of_le (inductionHypothesis found) (Nat.le_add_right _ _)

/-- A variable that is not among the earliest declarations is numbered after them. -/
theorem count_le_index {later earlier : List (Declaration κ)} {name : String} {symbol : Symbol κ}
    (fits : ∀ storage, count (later ++ earlier) storage ≤ 65535)
    (apart : ∀ declaration ∈ earlier, declaration.name ≠ name)
    (found : symbol? (later ++ earlier) name = some symbol) :
    count earlier symbol.storage ≤ symbol.index.toNat := by
  induction later with
  | nil =>
      obtain ⟨declaration, member, same⟩ :=
        isSome_symbol?_iff.1 (Option.isSome_iff_exists.2 ⟨symbol, found⟩)
      exact absurd same (apart declaration member)
  | cons latest later inductionHypothesis =>
      have fits' storage : count (later ++ earlier) storage ≤ 65535 := by
        have bound := fits storage
        rw [List.cons_append, count_cons] at bound
        omega
      rw [List.cons_append, symbol?] at found
      split at found
      · cases found
        have bound := fits' latest.storage
        rw [UInt16.toNat_ofNat_of_lt' (Nat.lt_succ_of_le bound), count_append]
        exact Nat.le_add_left _ _
      · exact inductionHypothesis fits' found

end Declaration

namespace SymbolTable

variable {κ : Type} [StorageClass κ] [DecidableEq κ]

/-- A definition finds room in its storage class, and takes one place of it. -/
theorem toNat_count_of_define? {table after : SymbolTable κ} {name type : String} {storage : κ}
    {symbol : Symbol κ} (defined : table.define? name type storage = some (symbol, after)) :
    (table.count storage).toNat < 65535 ∧ ∀ counted, (after.count counted).toNat =
      (table.count counted).toNat + if storage = counted then 1 else 0 := by
  have notFull : table.count storage ≠ maxCount := by
    intro full
    rw [define?_eq_none_iff.2 full] at defined
    cases defined
  have room : (table.count storage).toNat < 65535 := by
    have below := (table.count storage).toNat_lt
    have other : (table.count storage).toNat ≠ 65535 := fun same =>
      notFull (UInt16.toNat_inj.1 same)
    omega
  refine ⟨room, fun counted => ?_⟩
  rw [count_of_define? defined]
  by_cases same : counted = storage
  · subst same
    rw [if_pos rfl, if_pos rfl, UInt16.toNat_add]
    exact Nat.mod_eq_of_lt (Nat.succ_lt_succ room)
  · rw [if_neg same, if_neg (fun equal => same equal.symm), Nat.add_zero]

/-- A table gives the answers that follow from declarations. -/
structure Records (table : SymbolTable κ) (declared : List (Declaration κ)) : Prop where
  counts : ∀ storage, (table.count storage).toNat = Declaration.count declared storage
  symbols : ∀ name, table.lookup? name = Declaration.symbol? declared name

namespace Records

variable {table after : SymbolTable κ} {declared : List (Declaration κ)} {name type : String}
  {storage : κ} {symbol : Symbol κ}

theorem empty : Records (SymbolTable.empty : SymbolTable κ) [] where
  counts storage := by simp
  symbols name := by simp [Declaration.symbol?]

/-- A storage class never holds more than the largest count. -/
theorem count_le (records : table.Records declared) (storage : κ) :
    Declaration.count declared storage ≤ 65535 := by
  have bound := (table.count storage).toNat_lt
  rw [← records.counts storage]
  omega

/-- A definition adds a declaration. -/
theorem define (records : table.Records declared)
    (defined : table.define? name type storage = some (symbol, after)) :
    after.Records (⟨name, type, storage⟩ :: declared) where
  counts counted := by
    rw [(toNat_count_of_define? defined).2, records.counts, Declaration.count_cons]
  symbols sought := by
    rw [lookup?_of_define? defined, symbol_of_define? defined, Declaration.symbol?]
    by_cases same : name = sought
    · rw [if_pos same, if_pos same, ← records.counts, UInt16.ofNat_toNat]
    · rw [if_neg same, if_neg same, records.symbols]

/-- A definition succeeds as long as its storage class is not full. -/
theorem exists_define (records : table.Records declared) (name type : String)
    (room : Declaration.count declared storage < 65535) :
    ∃ symbol after, table.define? name type storage = some (symbol, after) := by
  cases outcome : table.define? name type storage with
  | some result => exact ⟨result.1, result.2, rfl⟩
  | none =>
      have full := define?_eq_none_iff.1 outcome
      have number := records.counts storage
      rw [full] at number
      simp [maxCount] at number
      omega

end Records

end SymbolTable

end JackCompiler
