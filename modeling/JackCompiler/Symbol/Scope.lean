import JackCompiler.Symbol.Table

/-!
# Scopes

Inside a subroutine a name is sought among its arguments and locals first, then among the statics
and fields of its class.
-/

namespace JackCompiler

/-- A variable as generated code reaches it. -/
structure Variable where
  /-- The declared type. -/
  type : String
  segment : Segment
  index : UInt16
  deriving DecidableEq

namespace Symbol

/-- Where a symbol's variable lives. -/
def toVariable {κ : Type} [StorageClass κ] (symbol : Symbol κ) : Variable :=
  ⟨symbol.type, StorageClass.segment symbol.storage, symbol.index⟩

end Symbol

/-- The two tables that are open inside a subroutine. -/
structure Scope where
  /-- Statics and fields. -/
  ofClass : SymbolTable ClassStorage
  /-- Arguments and locals. -/
  ofSubroutine : SymbolTable SubroutineStorage

namespace Scope

/-- A scope in which nothing is defined. -/
def empty : Scope := ⟨.empty, .empty⟩

/-- The variable a name stands for. -/
def resolve? (scope : Scope) (name : String) : Option Variable :=
  match scope.ofSubroutine.lookup? name with
  | some symbol => some symbol.toVariable
  | none => (scope.ofClass.lookup? name).map Symbol.toVariable

/-- The number of words an object of the class takes. -/
def fieldCount (scope : Scope) : UInt16 := scope.ofClass.count .field

end Scope

end JackCompiler
