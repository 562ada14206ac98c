import JackCompiler.Proofs.Scoping.Declaration

/-!
# Memory slots of visible names

A slot is a segment with an index. Names that are visible together have slots of their own, whatever
was done to the tables of a scope: names defined again in the same or the other storage class,
definitions refused since a storage class was full, tables emptied.

Each table records the definitions since it was last emptied. No two of these in one storage class
have the same number, the storage classes of a table have segments of their own, and so do the two
tables. What is read off a table is one of the records, so a slot stands for one name.
-/

namespace JackCompiler

namespace Declaration

variable {κ : Type} [DecidableEq κ] {declared : List (Declaration κ)} {left right : String}
  {first second : Symbol κ}

/-- A storage class gives each number to one name. -/
theorem name_unique (fits : ∀ storage, count declared storage ≤ 65535)
    (foundLeft : symbol? declared left = some first)
    (foundRight : symbol? declared right = some second)
    (sameStorage : first.storage = second.storage) (sameIndex : first.index = second.index) :
    left = right := by
  induction declared with
  | nil => cases foundLeft
  | cons latest earlier inductionHypothesis =>
      have fitsEarlier : ∀ storage, count earlier storage ≤ 65535 := by
        intro storage
        have bound := fits storage
        rw [count_cons] at bound
        omega
      -- The latest declaration is numbered after all earlier ones of its storage class.
      have above : ∀ {name : String} {symbol : Symbol κ}, symbol? earlier name = some symbol →
          symbol.storage = latest.storage →
          symbol.index ≠ UInt16.ofNat (count earlier latest.storage) := by
        intro name symbol found same equal
        have below := index_lt_count found
        rw [equal, same, UInt16.toNat_ofNat_of_lt'
          (Nat.lt_succ_of_le (fitsEarlier latest.storage))] at below
        exact Nat.lt_irrefl _ below
      rw [symbol?] at foundLeft foundRight
      by_cases isLeft : latest.name = left
      · by_cases isRight : latest.name = right
        · exact isLeft.symm.trans isRight
        · rw [if_pos isLeft] at foundLeft
          rw [if_neg isRight] at foundRight
          cases foundLeft
          exact absurd sameIndex.symm (above foundRight sameStorage.symm)
      · rw [if_neg isLeft] at foundLeft
        by_cases isRight : latest.name = right
        · rw [if_pos isRight] at foundRight
          cases foundRight
          exact absurd sameIndex (above foundLeft sameStorage)
        · rw [if_neg isRight] at foundRight
          exact inductionHypothesis fitsEarlier foundLeft foundRight

end Declaration

namespace SymbolTable

variable {κ : Type} [StorageClass κ]

/-- A definition that may be refused; then the table stays as it is. -/
def define (table : SymbolTable κ) (name type : String) (storage : κ) : SymbolTable κ :=
  match table.define? name type storage with
  | some (_, after) => after
  | none => table

namespace Records

variable [DecidableEq κ] {table : SymbolTable κ} {declared : List (Declaration κ)}

/-- Whether or not a definition is refused, the table records what was declared. -/
theorem exists_defined (records : table.Records declared) (name type : String) (storage : κ) :
    ∃ declared, (table.define name type storage).Records declared := by
  unfold SymbolTable.define
  cases outcome : table.define? name type storage with
  | none => exact ⟨declared, records⟩
  | some result => exact ⟨_, records.define outcome⟩

variable {left right : String} {first second : Symbol κ}

/-- The symbols of a table are numbered below the counts of their storage classes. -/
theorem index_lt (records : table.Records declared) {name : String} {symbol : Symbol κ}
    (found : table.lookup? name = some symbol) :
    symbol.index < table.count symbol.storage := by
  rw [records.symbols] at found
  rw [UInt16.lt_iff_toNat_lt, records.counts]
  exact Declaration.index_lt_count found

/-- A slot of a table stands for one name. -/
theorem name_unique (records : table.Records declared)
    (foundLeft : table.lookup? left = some first) (foundRight : table.lookup? right = some second)
    (sameSegment : StorageClass.segment first.storage = StorageClass.segment second.storage)
    (sameIndex : first.index = second.index) : left = right := by
  rw [records.symbols] at foundLeft foundRight
  exact Declaration.name_unique records.count_le foundLeft foundRight
    (StorageClass.segment_injective sameSegment) sameIndex

end Records

end SymbolTable

/-- What can be done to the tables of a scope. -/
inductive ScopeChange
  | defineInClass (name type : String) (storage : ClassStorage)
  | defineInSubroutine (name type : String) (storage : SubroutineStorage)
  | emptyClass
  | emptySubroutine

namespace Scope

/-- The scope after a change. -/
def change (scope : Scope) : ScopeChange → Scope
  | .defineInClass name type storage =>
      { scope with ofClass := scope.ofClass.define name type storage }
  | .defineInSubroutine name type storage =>
      { scope with ofSubroutine := scope.ofSubroutine.define name type storage }
  | .emptyClass => { scope with ofClass := .empty }
  | .emptySubroutine => { scope with ofSubroutine := .empty }

/-- The scope after changes in order. -/
def changeAll (scope : Scope) (changes : List ScopeChange) : Scope := changes.foldl change scope

/-- How many definitions the storage class has seen whose variables live in a segment. -/
def countIn (scope : Scope) : Segment → UInt16
  | .static => scope.ofClass.count .static
  | .this => scope.ofClass.count .field
  | .argument => scope.ofSubroutine.count .argument
  | .local => scope.ofSubroutine.count .local
  | .constant | .that | .pointer | .temp => 0

/-- Both tables record definitions. -/
structure Recorded (scope : Scope) : Prop where
  ofClass : ∃ declared, scope.ofClass.Records declared
  ofSubroutine : ∃ declared, scope.ofSubroutine.Records declared

variable {scope : Scope}

theorem Recorded.empty : Recorded Scope.empty := ⟨⟨[], .empty⟩, ⟨[], .empty⟩⟩

/-- A change of one table leaves the other alone, and each with its records. -/
theorem Recorded.change (recorded : scope.Recorded) (change : ScopeChange) :
    (scope.change change).Recorded := by
  obtain ⟨declaredInClass, ofClass⟩ := recorded.ofClass
  obtain ⟨declaredInSubroutine, ofSubroutine⟩ := recorded.ofSubroutine
  cases change with
  | defineInClass name type storage =>
      exact ⟨ofClass.exists_defined name type storage, recorded.ofSubroutine⟩
  | defineInSubroutine name type storage =>
      exact ⟨recorded.ofClass, ofSubroutine.exists_defined name type storage⟩
  | emptyClass => exact ⟨⟨[], .empty⟩, recorded.ofSubroutine⟩
  | emptySubroutine => exact ⟨recorded.ofClass, ⟨[], .empty⟩⟩

theorem Recorded.changeAll (recorded : scope.Recorded) (changes : List ScopeChange) :
    (scope.changeAll changes).Recorded := by
  induction changes generalizing scope with
  | nil => exact recorded
  | cons change changes inductionHypothesis => exact inductionHypothesis (recorded.change change)

/-- A visible name stands for a symbol of the subroutine, or else for one of the class. -/
theorem resolve?_cases {name : String} {resolved : Variable}
    (found : scope.resolve? name = some resolved) :
    (∃ symbol, scope.ofSubroutine.lookup? name = some symbol ∧ resolved = symbol.toVariable) ∨
      ∃ symbol, scope.ofClass.lookup? name = some symbol ∧ resolved = symbol.toVariable := by
  unfold resolve? at found
  cases inSubroutine : scope.ofSubroutine.lookup? name with
  | some symbol =>
      rw [inSubroutine] at found
      exact .inl ⟨symbol, rfl, (Option.some.inj found).symm⟩
  | none =>
      rw [inSubroutine] at found
      obtain ⟨symbol, inClass, same⟩ := Option.map_eq_some_iff.1 found
      exact .inr ⟨symbol, inClass, same.symm⟩

theorem countIn_ofClass (storage : ClassStorage) :
    scope.countIn (StorageClass.segment storage) = scope.ofClass.count storage := by
  cases storage <;> rfl

theorem countIn_ofSubroutine (storage : SubroutineStorage) :
    scope.countIn (StorageClass.segment storage) = scope.ofSubroutine.count storage := by
  cases storage <;> rfl

/-- The tables of a scope have different segments. -/
theorem segment_ne (inClass : ClassStorage) (inSubroutine : SubroutineStorage) :
    StorageClass.segment inClass ≠ StorageClass.segment inSubroutine := by
  cases inClass <;> cases inSubroutine <;> exact nofun

/-- Visible names are numbered below the counts of their storage classes. -/
theorem Recorded.index_lt (recorded : scope.Recorded) {name : String} {resolved : Variable}
    (found : scope.resolve? name = some resolved) :
    resolved.index < scope.countIn resolved.segment := by
  rcases resolve?_cases found with ⟨symbol, inSubroutine, rfl⟩ | ⟨symbol, inClass, rfl⟩
  · obtain ⟨declared, records⟩ := recorded.ofSubroutine
    have below := records.index_lt inSubroutine
    rwa [← countIn_ofSubroutine] at below
  · obtain ⟨declared, records⟩ := recorded.ofClass
    have below := records.index_lt inClass
    rwa [← countIn_ofClass] at below

/-- A slot stands for one visible name. -/
theorem Recorded.name_unique (recorded : scope.Recorded) {left right : String}
    {first second : Variable} (foundLeft : scope.resolve? left = some first)
    (foundRight : scope.resolve? right = some second)
    (sameSegment : first.segment = second.segment) (sameIndex : first.index = second.index) :
    left = right := by
  obtain ⟨declaredInClass, ofClass⟩ := recorded.ofClass
  obtain ⟨declaredInSubroutine, ofSubroutine⟩ := recorded.ofSubroutine
  rcases resolve?_cases foundLeft with ⟨symbol, leftIn, rfl⟩ | ⟨symbol, leftIn, rfl⟩ <;>
    rcases resolve?_cases foundRight with ⟨other, rightIn, rfl⟩ | ⟨other, rightIn, rfl⟩
  · exact ofSubroutine.name_unique leftIn rightIn sameSegment sameIndex
  · exact absurd sameSegment.symm (segment_ne other.storage symbol.storage)
  · exact absurd sameSegment (segment_ne symbol.storage other.storage)
  · exact ofClass.name_unique leftIn rightIn sameSegment sameIndex

/-- Whatever was done to the tables of a scope, different names that are visible in it have
different slots, and none is numbered beyond what its storage class has seen. -/
theorem resolve_slots_distinct (changes : List ScopeChange) :
    (∀ {left right : String} {first second : Variable}, left ≠ right →
      (empty.changeAll changes).resolve? left = some first →
      (empty.changeAll changes).resolve? right = some second →
      (first.segment, first.index) ≠ (second.segment, second.index)) ∧
    ∀ {name : String} {resolved : Variable},
      (empty.changeAll changes).resolve? name = some resolved →
      resolved.index < (empty.changeAll changes).countIn resolved.segment := by
  have recorded : (empty.changeAll changes).Recorded := Recorded.empty.changeAll changes
  constructor
  · intro left right first second different foundLeft foundRight same
    obtain ⟨sameSegment, sameIndex⟩ := Prod.mk.inj same
    exact different (recorded.name_unique foundLeft foundRight sameSegment sameIndex)
  · intro name resolved found
    exact recorded.index_lt found

/-- A local that is defined again leaves its number behind, and what was there before the table was
emptied does not count. -/
theorem resolve_slots_distinct_of_redefinition :
    ∃ changes : List ScopeChange,
      (empty.changeAll changes).resolve? "x" = some ⟨"char", .local, 2⟩ ∧
      (empty.changeAll changes).resolve? "y" = some ⟨"int", .local, 1⟩ ∧
      (Segment.local, (2 : UInt16)) ≠ (Segment.local, 1) ∧
      2 < (empty.changeAll changes).countIn .local := by
  let changes : List ScopeChange := [.defineInSubroutine "z" "int" .local, .emptySubroutine,
    .defineInClass "y" "int" .field, .defineInSubroutine "x" "int" .local,
    .defineInSubroutine "y" "int" .local, .defineInSubroutine "x" "char" .local]
  have found : (empty.changeAll changes).resolve? "x" = some ⟨"char", .local, 2⟩ ∧
      (empty.changeAll changes).resolve? "y" = some ⟨"int", .local, 1⟩ := by
    simp [changes, changeAll, change, SymbolTable.define, SymbolTable.define?, empty, resolve?,
      SymbolTable.lookup?, SymbolTable.empty, SymbolTable.count, SymbolTable.maxCount,
      Std.HashMap.getElem_insert, Symbol.toVariable, StorageClass.segment, StorageClass.slot]
  have distinct := resolve_slots_distinct changes
  exact ⟨changes, found.1, found.2, distinct.1 (by decide) found.1 found.2, distinct.2 found.1⟩

end Scope

end JackCompiler
