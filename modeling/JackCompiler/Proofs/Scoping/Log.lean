import Mathlib.Data.Finset.Card
import Mathlib.Data.Finset.Dedup
import Mathlib.Data.List.Basic
import JackCompiler.Proofs.Scoping.Declaration

/-!
# Symbol tables and their logs

A symbol table keeps a map of the names and two numbers beside it. A definition that replaces a name
leaves the map as large as it was and still adds to a number, so neither can be read off the other.
What both follow is the log: the symbols of the definitions that succeeded, the earliest first,
since the table was last emptied.

`TableRequest` is what can be asked of a table and `serveAll` answers requests in order. The log is
kept from the answers alone. `Reflects` says what the log has to do with all that is asked next.
-/

namespace JackCompiler

/-- What can be asked of a symbol table. -/
inductive TableRequest (κ : Type)
  | define (name type : String) (storage : κ)
  | lookup (name : String)
  | contains (name : String)
  | count (storage : κ)
  | size
  | isEmpty
  | reset

/-- What a symbol table answers. -/
inductive TableAnswer (κ : Type)
  /-- The new symbol, or none if the definition was refused. -/
  | defined (symbol : Option (Symbol κ))
  | meaning (symbol : Option (Symbol κ))
  | truth (holds : Bool)
  | number (number : Nat)
  /-- There is nothing to say. -/
  | done

namespace Log

variable {κ : Type}

/-- How many definitions belong to a storage class. -/
def count [DecidableEq κ] (log : List (Symbol κ)) (storage : κ) : Nat :=
  log.countP fun symbol => symbol.storage = storage

/-- The symbol of the last definition of a name. -/
def latest? (log : List (Symbol κ)) (name : String) : Option (Symbol κ) :=
  log.reverse.find? fun symbol => symbol.name = name

/-- The names that were defined, each once. -/
def names (log : List (Symbol κ)) : Finset String := (log.map Symbol.name).toFinset

/-- The log after a request was answered. -/
def record : List (Symbol κ) → TableRequest κ × TableAnswer κ → List (Symbol κ)
  | log, (.define _ _ _, .defined (some symbol)) => log ++ [symbol]
  | _, (.reset, _) => []
  | log, _ => log

variable {log : List (Symbol κ)} {symbol : Symbol κ}

/-- One more symbol counts for its own storage. -/
theorem count_concat [DecidableEq κ] (storage : κ) :
    count (log ++ [symbol]) storage =
      count log storage + if symbol.storage = storage then 1 else 0 := by
  simp [count, List.countP_cons]

/-- One more symbol is the latest of its name. -/
theorem latest?_concat (name : String) :
    latest? (log ++ [symbol]) name =
      if symbol.name = name then some symbol else latest? log name := by
  by_cases same : symbol.name = name <;> simp [latest?, same]

/-- One more symbol adds its name, unless there is one already. -/
theorem names_concat : names (log ++ [symbol]) = insert symbol.name (names log) := by
  ext name
  simp [names]

/-- Exactly the names that were defined have a last definition. -/
theorem isSome_latest?_iff {name : String} : (latest? log name).isSome ↔ name ∈ names log := by
  simp [latest?, names]

end Log

namespace SymbolTable

variable {κ : Type}

/-- A name is in a table exactly when it is found there. -/
theorem contains_eq_isSome_lookup? (table : SymbolTable κ) (name : String) :
    table.contains name = (table.lookup? name).isSome := by
  simp [contains, lookup?]

variable [StorageClass κ]

/-- A definition makes the map larger exactly when its name is new. -/
theorem size_of_define? {table after : SymbolTable κ} {name type : String} {storage : κ}
    {symbol : Symbol κ} (defined : table.define? name type storage = some (symbol, after)) :
    after.size = if table.contains name then table.size else table.size + 1 := by
  simp only [define?] at defined
  split at defined
  · cases defined
  · cases defined
    simp [size, contains, Std.HashMap.size_insert]

/-- The answer to a request, and the table behind it. -/
def serve (table : SymbolTable κ) : TableRequest κ → TableAnswer κ × SymbolTable κ
  | .define name type storage =>
      match table.define? name type storage with
      | some (symbol, after) => (.defined (some symbol), after)
      | none => (.defined none, table)
  | .lookup name => (.meaning (table.lookup? name), table)
  | .contains name => (.truth (table.contains name), table)
  | .count storage => (.number (table.count storage).toNat, table)
  | .size => (.number table.size, table)
  | .isEmpty => (.truth table.isEmpty, table)
  | .reset => (.done, empty)

/-- The answers to requests in order, and the table behind the last one. -/
def serveAll (table : SymbolTable κ) :
    List (TableRequest κ) → List (TableAnswer κ) × SymbolTable κ
  | [] => ([], table)
  | request :: requests =>
      ((table.serve request).1 :: ((table.serve request).2.serveAll requests).1,
        ((table.serve request).2.serveAll requests).2)

/-- The log of a table that was empty at first, kept from the answers it gave. -/
def logOf (requests : List (TableRequest κ)) : List (Symbol κ) :=
  (requests.zip ((empty : SymbolTable κ).serveAll requests).1).foldl Log.record []

variable [DecidableEq κ]

/-- The map and the numbers of a table are what its log makes them. -/
structure Follows (table : SymbolTable κ) (log : List (Symbol κ)) : Prop where
  lookup? : ∀ name, table.lookup? name = Log.latest? log name
  count : ∀ storage, (table.count storage).toNat = Log.count log storage
  size : table.size = (Log.names log).card

/-- What is asked of a table is answered from its log. -/
structure Reflects (table : SymbolTable κ) (log : List (Symbol κ)) : Prop
    extends table.Follows log where
  contains : ∀ name, table.contains name = (table.lookup? name).isSome
  isEmpty : table.isEmpty = true ↔ table.size = 0
  /-- Only a full storage class refuses a definition. -/
  refuses_iff : ∀ name type storage,
    table.define? name type storage = none ↔ Log.count log storage = 65535
  /-- After a refused definition everything is answered as if there had been none. -/
  refused : ∀ name type storage requests, table.define? name type storage = none →
    table.serveAll (.define name type storage :: requests) =
      (.defined none :: (table.serveAll requests).1, (table.serveAll requests).2)
  /-- A new symbol has the number of the definitions before it in its storage class. -/
  defines : ∀ name type storage symbol after,
    table.define? name type storage = some (symbol, after) →
      symbol.name = name ∧ symbol.type = type ∧ symbol.storage = storage ∧
        symbol.index.toNat = Log.count log storage

namespace Follows

variable {table after : SymbolTable κ} {log : List (Symbol κ)} {name type : String} {storage : κ}
  {symbol : Symbol κ}

theorem empty : (SymbolTable.empty : SymbolTable κ).Follows [] where
  lookup? name := by simp [Log.latest?]
  count storage := by simp [Log.count]
  size := by simp [SymbolTable.size, SymbolTable.empty, Log.names]

/-- A definition that succeeds is logged last. -/
theorem define (follows : table.Follows log)
    (defined : table.define? name type storage = some (symbol, after)) :
    after.Follows (log ++ [symbol]) := by
  have isSymbol := symbol_of_define? defined
  have isName : symbol.name = name := by rw [isSymbol]
  have isStorage : symbol.storage = storage := by rw [isSymbol]
  refine ⟨?lookup, ?count, ?size⟩
  case lookup =>
    intro sought
    rw [lookup?_of_define? defined, Log.latest?_concat, isName, follows.lookup?]
  case count =>
    intro counted
    rw [(toNat_count_of_define? defined).2, Log.count_concat, isStorage, follows.count]
  case size =>
    have present : table.contains name = true ↔ name ∈ Log.names log := by
      rw [contains_eq_isSome_lookup?, follows.lookup?, Log.isSome_latest?_iff]
    rw [size_of_define? defined, Log.names_concat, isName, follows.size]
    by_cases known : name ∈ Log.names log
    · rw [if_pos (present.2 known), Finset.insert_eq_of_mem known]
    · rw [if_neg (fun contained => known (present.1 contained)),
        Finset.card_insert_of_notMem known]

/-- The table behind an answer follows the log with that answer. -/
theorem serve (follows : table.Follows log) (request : TableRequest κ) :
    (table.serve request).2.Follows (Log.record log (request, (table.serve request).1)) := by
  cases request with
  | define name type storage =>
      cases outcome : table.define? name type storage with
      | none => simpa only [SymbolTable.serve, outcome, Log.record] using follows
      | some result =>
          simpa only [SymbolTable.serve, outcome, Log.record] using follows.define outcome
  | reset => exact empty
  | lookup | contains | count | size | isEmpty => exact follows

/-- The table behind all answers follows the log with all of them. -/
theorem serveAll (follows : table.Follows log) (requests : List (TableRequest κ)) :
    (table.serveAll requests).2.Follows
      ((requests.zip (table.serveAll requests).1).foldl Log.record log) := by
  induction requests generalizing table log with
  | nil => exact follows
  | cons request requests inductionHypothesis => exact inductionHypothesis (follows.serve request)

/-- A table reflects the log that it follows. -/
theorem reflects (follows : table.Follows log) : table.Reflects log where
  toFollows := follows
  contains := contains_eq_isSome_lookup? table
  isEmpty := by
    simp [SymbolTable.isEmpty, SymbolTable.size, Std.HashMap.isEmpty_eq_size_eq_zero]
  refuses_iff name type storage := by
    rw [define?_eq_none_iff, ← follows.count, ← UInt16.toNat_inj]
    rfl
  refused name type storage requests refused := by
    simp only [SymbolTable.serveAll, SymbolTable.serve, refused]
  defines name type storage symbol after defined := by
    rw [symbol_of_define? defined]
    exact ⟨rfl, rfl, rfl, follows.count storage⟩

end Follows

/-- Whatever was asked of a table that was empty at first, the log of what it defined since it was
last emptied answers all that is asked next: whether a definition is refused and that this changes
nothing, the number of a new symbol, what a name stands for, how many definitions a storage class
has seen and how many different names there are. -/
theorem serveAll_reflects_log (requests : List (TableRequest κ)) :
    ((empty : SymbolTable κ).serveAll requests).2.Reflects (logOf requests) :=
  (Follows.empty.serveAll requests).reflects

end SymbolTable

end JackCompiler
