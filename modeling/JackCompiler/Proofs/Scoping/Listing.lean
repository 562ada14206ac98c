import JackCompiler.Proofs.Scoping.Log
import JackCompiler.Proofs.Scoping.Slots

/-!
# Listings of symbol tables

The map of a symbol table yields its symbols in no order that anyone could rely on. They are listed
by storage class and number, and this order is strict: a number is not given out twice in its
storage class until the table is emptied, whether names are defined again, in the same or the other
storage class, or definitions are refused. So a table has one listing, in whatever order its map
yields the symbols.
-/

namespace JackCompiler

namespace Symbol

variable {κ : Type} [StorageClass κ]

/-- Whether a symbol is listed strictly before another: its storage class comes first, or in the
same one it has the smaller number. -/
def Precedes (left right : Symbol κ) : Prop :=
  StorageClass.slot left.storage < StorageClass.slot right.storage ∨
    StorageClass.slot left.storage = StorageClass.slot right.storage ∧ left.index < right.index

variable {left right : Symbol κ}

theorem Precedes.irrefl (symbol : Symbol κ) : ¬symbol.Precedes symbol := by
  rintro (below | ⟨_, below⟩)
  · exact absurd below (Fin.lt_irrefl _)
  · exact absurd below (UInt16.lt_irrefl _)

/-- No two symbols precede each other. -/
theorem Precedes.asymm (first : left.Precedes right) : ¬right.Precedes left := by
  simp only [Precedes, Fin.lt_def, Fin.ext_iff, UInt16.lt_iff_toNat_lt] at *
  omega

end Symbol

namespace Declaration

/-- What a name stands for was declared under that name. -/
theorem name_of_symbol? {κ : Type} [DecidableEq κ] {declared : List (Declaration κ)}
    {name : String} {symbol : Symbol κ} (found : symbol? declared name = some symbol) :
    symbol.name = name := by
  induction declared with
  | nil => cases found
  | cons latest earlier inductionHypothesis =>
      rw [symbol?] at found
      split at found
      · next same =>
          cases found
          exact same
      · exact inductionHypothesis found

end Declaration

namespace SymbolTable

section Entries

variable {κ : Type} {table : SymbolTable κ}

/-- The map yields its symbols in the order of its entries. -/
theorem values_eq (table : SymbolTable κ) :
    table.symbols.values = table.symbols.toList.map Prod.snd := by
  show table.symbols.inner.inner.values =
    (Std.DHashMap.Raw.Const.toList table.symbols.inner.inner).map Prod.snd
  rw [Std.DHashMap.Internal.Raw.values_eq_values_toListModel,
    Std.DHashMap.Internal.Raw.Const.toList_eq_toListModel_map, Std.Internal.List.values_eq_map,
    List.map_map]
  rfl

/-- The map yields exactly the symbols that names stand for. -/
theorem mem_values_iff {symbol : Symbol κ} :
    symbol ∈ table.symbols.values ↔ ∃ name, table.lookup? name = some symbol := by
  rw [values_eq, List.mem_map]
  simp [lookup?, Std.HashMap.mem_toList_iff_getElem?_eq_some]

/-- A map whose symbols have the names they stand under yields each of them once. -/
theorem nodup_values
    (named : ∀ name symbol, table.lookup? name = some symbol → symbol.name = name) :
    table.symbols.values.Nodup := by
  rw [values_eq, List.Nodup, List.pairwise_map]
  refine Std.HashMap.distinct_keys_toList.imp_of_mem ?_
  rintro ⟨left, first⟩ ⟨right, second⟩ memberLeft memberRight apart same
  have isLeft := named left first (Std.HashMap.mem_toList_iff_getElem?_eq_some.1 memberLeft)
  have isRight := named right second (Std.HashMap.mem_toList_iff_getElem?_eq_some.1 memberRight)
  exact ne_of_beq_false apart (isLeft.symm.trans ((congrArg Symbol.name same).trans isRight))

end Entries

section Order

variable {κ : Type} [StorageClass κ]

/-- A symbol is listed before another by its storage class, and in the same class by its number. -/
theorem listedBefore_iff {left right : Symbol κ} :
    listedBefore left right = true ↔
      StorageClass.slot left.storage < StorageClass.slot right.storage ∨
        StorageClass.slot left.storage = StorageClass.slot right.storage ∧
          left.index ≤ right.index := by
  simp [listedBefore]

/-- The order of listings is transitive. -/
theorem listedBefore_trans (left middle right : Symbol κ)
    (first : listedBefore left middle = true) (second : listedBefore middle right = true) :
    listedBefore left right = true := by
  simp only [listedBefore_iff, Fin.lt_def, Fin.ext_iff, UInt16.le_iff_toNat_le] at *
  omega

/-- Of two symbols one is listed before the other. -/
theorem listedBefore_total (left right : Symbol κ) :
    (listedBefore left right || listedBefore right left) = true := by
  simp only [Bool.or_eq_true, listedBefore_iff, Fin.lt_def, Fin.ext_iff, UInt16.le_iff_toNat_le]
  omega

/-- Strictly ascending lists of the same symbols are the same. -/
theorem eq_of_ascending {left right : List (Symbol κ)} (first : left.Pairwise Symbol.Precedes)
    (second : right.Pairwise Symbol.Precedes) (same : left.Perm right) : left = right :=
  List.Perm.eq_of_pairwise (fun _ _ _ _ before after => absurd after before.asymm) first second same

/-- Symbols that differ in storage class or number, however arranged, are sorted into strict
order. -/
theorem ascending_mergeSort {entries : List (Symbol κ)} (once : entries.Nodup)
    (distinct : ∀ left ∈ entries, ∀ right ∈ entries,
      left.storage = right.storage → left.index = right.index → left = right) :
    (entries.mergeSort listedBefore).Pairwise Symbol.Precedes := by
  have sorted := List.pairwise_mergeSort (listedBefore_trans (κ := κ)) listedBefore_total entries
  have apart : (entries.mergeSort listedBefore).Nodup :=
    (List.mergeSort_perm entries _).nodup_iff.2 once
  refine (sorted.and apart).imp_of_mem ?_
  rintro left right memberLeft memberRight ⟨before, different⟩
  rcases listedBefore_iff.1 before with below | ⟨same, notAbove⟩
  · exact .inl below
  · refine .inr ⟨same, UInt16.lt_of_le_of_ne notAbove fun equal => different ?_⟩
    exact distinct left (List.mem_mergeSort.1 memberLeft) right (List.mem_mergeSort.1 memberRight)
      (StorageClass.slot_injective same) equal

end Order

variable {κ : Type} [StorageClass κ] [DecidableEq κ]

/-- How a table is listed: each of its symbols once, in strict order, and in no other way. -/
structure Listed (table : SymbolTable κ) : Prop where
  /-- No two names stand for symbols of the same storage class with the same number. -/
  distinct : ∀ {left right : String} {first second : Symbol κ},
    table.lookup? left = some first → table.lookup? right = some second →
      first.storage = second.storage → first.index = second.index → left = right
  live : ∀ symbol, symbol ∈ table.listing ↔ ∃ name, table.lookup? name = some symbol
  once : ∀ symbol ∈ table.listing, table.listing.count symbol = 1
  ascending : table.listing.Pairwise Symbol.Precedes
  /-- In whatever order the map yields its symbols, the listing and its text are the same. -/
  anyOrder : ∀ entries : List (Symbol κ), entries.Perm table.symbols.values →
    entries.mergeSort listedBefore = table.listing ∧
      Text.bracketed ((entries.mergeSort listedBefore).map Symbol.text) = table.text
  /-- However the symbols are sorted, there is one order to sort them in. -/
  unique : ∀ symbols : List (Symbol κ), symbols.Pairwise Symbol.Precedes →
    (∀ symbol, symbol ∈ symbols ↔ ∃ name, table.lookup? name = some symbol) →
      symbols = table.listing

namespace Records

variable {table : SymbolTable κ} {declared : List (Declaration κ)}

/-- Whatever is asked of a table, it records what was declared. -/
theorem exists_served (records : table.Records declared) (request : TableRequest κ) :
    ∃ declared, (table.serve request).2.Records declared := by
  cases request with
  | define name type storage =>
      cases outcome : table.define? name type storage with
      | none => exact ⟨declared, by simpa only [serve, outcome] using records⟩
      | some result => exact ⟨_, by simpa only [serve, outcome] using records.define outcome⟩
  | reset => exact ⟨[], .empty⟩
  | lookup | contains | count | size | isEmpty => exact ⟨declared, records⟩

/-- Whatever is asked of a table, it records some declarations afterwards. -/
theorem exists_servedAll (records : table.Records declared) (requests : List (TableRequest κ)) :
    ∃ declared, (table.serveAll requests).2.Records declared := by
  induction requests generalizing table declared with
  | nil => exact ⟨declared, records⟩
  | cons request requests inductionHypothesis =>
      obtain ⟨_, served⟩ := records.exists_served request
      exact inductionHypothesis served

/-- What is found under a name has that name. -/
theorem name_of_lookup? (records : table.Records declared) (name : String) (symbol : Symbol κ)
    (found : table.lookup? name = some symbol) : symbol.name = name := by
  rw [records.symbols] at found
  exact Declaration.name_of_symbol? found

/-- A table that records declarations has one listing. -/
theorem listed (records : table.Records declared) : table.Listed := by
  have distinct {left right : String} {first second : Symbol κ}
      (foundLeft : table.lookup? left = some first)
      (foundRight : table.lookup? right = some second)
      (sameStorage : first.storage = second.storage) (sameIndex : first.index = second.index) :
      left = right :=
    records.name_unique foundLeft foundRight (congrArg StorageClass.segment sameStorage) sameIndex
  have once : table.symbols.values.Nodup := nodup_values records.name_of_lookup?
  have live (symbol : Symbol κ) :
      symbol ∈ table.listing ↔ ∃ name, table.lookup? name = some symbol := by
    rw [listing, List.mem_mergeSort, mem_values_iff]
  have ascending {entries : List (Symbol κ)} (yielded : entries.Perm table.symbols.values) :
      (entries.mergeSort listedBefore).Pairwise Symbol.Precedes := by
    refine ascending_mergeSort (yielded.nodup_iff.2 once) ?_
    intro first memberFirst second memberSecond sameStorage sameIndex
    obtain ⟨left, foundLeft⟩ := mem_values_iff.1 (yielded.mem_iff.1 memberFirst)
    obtain ⟨right, foundRight⟩ := mem_values_iff.1 (yielded.mem_iff.1 memberSecond)
    obtain rfl := distinct foundLeft foundRight sameStorage sameIndex
    rw [foundLeft] at foundRight
    exact Option.some.inj foundRight
  have apart : table.listing.Nodup := (List.mergeSort_perm _ _).nodup_iff.2 once
  refine ⟨distinct, live, ?once, ascending (.refl _), ?anyOrder, ?unique⟩
  case once => exact fun symbol member => List.count_eq_one_of_mem apart member
  case anyOrder =>
    intro entries yielded
    have same : entries.mergeSort listedBefore = table.listing :=
      eq_of_ascending (ascending yielded) (ascending (.refl _))
        ((List.mergeSort_perm _ _).trans (yielded.trans (List.mergeSort_perm _ _).symm))
    exact ⟨same, by rw [same, text]⟩
  case unique =>
    intro symbols sorted complete
    have nodup : symbols.Nodup := by
      refine sorted.imp ?_
      rintro symbol _ before rfl
      exact before.irrefl _
    refine eq_of_ascending sorted (ascending (.refl _)) ?_
    exact (List.perm_ext_iff_of_nodup nodup apart).2 fun symbol =>
      (complete symbol).trans (live symbol).symm

end Records

/-- Whatever was asked of a table that was empty at first, it has one listing: each symbol that a
name stands for once, in strict order of storage classes and numbers, in whatever order its map
yields them. -/
theorem listing_of_requests (requests : List (TableRequest κ)) :
    ((empty : SymbolTable κ).serveAll requests).2.Listed := by
  obtain ⟨declared, records⟩ := Records.exists_servedAll (Records.empty (κ := κ)) requests
  exact records.listed

end SymbolTable

end JackCompiler
