import JackCompiler.Proofs.Labelling.Workshop
import JackCompiler.Proofs.Output.Block
import JackCompiler.Proofs.Recognition.Language

/-!
# Memory operands

Every access to memory in the output is to a word that the accessed segment has, by what the source
declares and what the head of the block says. Only a prologue sets the current object, and in a
method no name reaches the argument that holds it: the lexer takes `this` for a reserved word, and
whatever else is declared is numbered after it.
-/

namespace JackCompiler

open Grammar

namespace Instruction

/-- The segment that an instruction accesses, and where. -/
def operand? : Instruction → Option (Segment × UInt16)
  | .push segment index | .pop segment index => some (segment, index)
  | _ => none

/-- Whether an instruction keeps to segments with given numbers of words. Constants are no memory:
all of them can be pushed, and nothing is popped into them. -/
def Inside (extent : Segment → Nat) : Instruction → Prop
  | .push segment index => segment = .constant ∨ index.toNat < extent segment
  | .pop segment index => segment ≠ .constant ∧ index.toNat < extent segment
  | _ => True

/-- Whether an instruction in the body of a subroutine keeps to its segments and leaves the current
object alone. -/
structure Harmless (extent : Segment → Nat) (kind : SubroutineKind) (instruction : Instruction) :
    Prop where
  inside : instruction.Inside extent
  pointer : instruction ≠ .pop .pointer 0
  receiver : kind = .method → instruction.operand? ≠ some (.argument, 0)

end Instruction

namespace Grammar

section Names

variable {tree : ClassDeclaration} {source : String}

/-- No name in a source is a reserved word. -/
theorem ClassDeclaration.IsTreeOf.names (isTree : tree.IsTreeOf source) :
    NamesIn (fun text => Keyword.ofText? text = none) tree.yield := by
  obtain ⟨stream, lexed, shown⟩ := isTree
  unfold TokenStream.terminals? at shown
  rw [(TokenStream.start_of_ofText lexed).2] at shown
  obtain ⟨_, move, _⟩ := TokenStream.Reads.exists_end shown
  intro text member
  obtain ⟨token, left, isName⟩ := move.exists_token member
  exact TokenStream.not_reserved_of_name lexed token left isName

end Names

namespace Subroutine

variable (ofClass : List (Declaration ClassStorage)) (subroutine : Subroutine)

/-- How many words each segment has for a subroutine with a number of locals. -/
def extent (locals : Nat) : Segment → Nat
  | .constant => 0
  | .argument => subroutine.parameters.length + if subroutine.kind = .method then 1 else 0
  | .local => locals
  | .static => Declaration.count ofClass .static
  | .this => Declaration.count ofClass .field
  | .pointer => 2
  | .that | .temp => 1

end Subroutine

/-- A word of memory that the body of a subroutine may both read and write. -/
structure Accessible (extent : Segment → Nat) (kind : SubroutineKind) (segment : Segment)
    (index : UInt16) : Prop where
  inside : index.toNat < extent segment
  constant : segment ≠ .constant
  pointer : segment ≠ .pointer
  receiver : kind = .method → (segment, index) ≠ (.argument, 0)

section Instructions

variable {extent : Segment → Nat} {kind : SubroutineKind} {segment : Segment} {index : UInt16}

theorem Accessible.push (accessible : Accessible extent kind segment index) :
    (Instruction.push segment index).Harmless extent kind where
  inside := .inr accessible.inside
  pointer := nofun
  receiver isMethod same := accessible.receiver isMethod (Option.some.inj same)

theorem Accessible.pop (accessible : Accessible extent kind segment index) :
    (Instruction.pop segment index).Harmless extent kind where
  inside := ⟨accessible.constant, accessible.inside⟩
  pointer same := accessible.pointer (Instruction.pop.inj same).1
  receiver isMethod same := accessible.receiver isMethod (Option.some.inj same)

end Instructions

section Subroutines

variable {className : String} {ofClass : List (Declaration ClassStorage)} {subroutine : Subroutine}
  {name : String} {place : Variable}

/-- A static or field is where its declaration puts it. -/
theorem accessible_of_class {symbol : Symbol ClassStorage} (locals : Nat)
    (found : Declaration.symbol? ofClass.reverse name = some symbol) :
    Accessible (subroutine.extent ofClass locals) subroutine.kind
      (StorageClass.segment symbol.storage) symbol.index := by
  have below := Declaration.index_lt_count found
  rw [Declaration.count_reverse] at below
  obtain ⟨_, _, storage, index⟩ := symbol
  cases storage <;> exact ⟨below, nofun, nofun, nofun⟩

/-- A parameter or local is where its declaration puts it, which is never where the object is that a
method was called on. -/
theorem accessible_of_subroutine {symbol : Symbol SubroutineStorage}
    (counts : ∀ storage, Declaration.count (subroutine.declarations className) storage ≤ maxCount)
    (unreserved : Keyword.ofText? name = none)
    (found : Declaration.symbol? (subroutine.declarations className).reverse name = some symbol) :
    Accessible (subroutine.extent ofClass subroutine.localDeclarations.length) subroutine.kind
      (StorageClass.segment symbol.storage) symbol.index := by
  have below := Declaration.index_lt_count found
  rw [Declaration.count_reverse] at below
  have above (isMethod : subroutine.kind = .method) :
      Declaration.count [⟨"this", className, .argument⟩] symbol.storage ≤ symbol.index.toNat := by
    have latest : (subroutine.declarations className).reverse =
        (subroutine.parameterDeclarations ++ subroutine.localDeclarations).reverse ++
          [⟨"this", className, .argument⟩] := by
      simp [Subroutine.declarations, isMethod, SubroutineKind.receiver]
    rw [latest] at found
    refine Declaration.count_le_index ?_ ?_ found
    · intro storage
      rw [← latest, Declaration.count_reverse]
      exact counts storage
    · rw [List.forall_mem_singleton]
      rintro rfl
      cases unreserved
  obtain ⟨_, _, storage, index⟩ := symbol
  cases storage with
  | argument =>
      refine ⟨Nat.lt_of_lt_of_eq below (subroutine.count_argument className), by rintro ⟨⟩,
        by rintro ⟨⟩, ?_⟩
      intro isMethod same
      have zero : index = 0 := congrArg Prod.snd same
      have one : 1 ≤ index.toNat := above isMethod
      rw [zero] at one
      cases one
  | «local» =>
      refine ⟨Nat.lt_of_lt_of_eq below (subroutine.count_local className), by rintro ⟨⟩,
        by rintro ⟨⟩, ?_⟩
      intro _ same
      cases same

/-- Whatever a name in the body of a subroutine stands for is accessible to it. -/
theorem Subroutine.Admissible.accessible (admissible : subroutine.Admissible className ofClass)
    (unreserved : Keyword.ofText? name = none)
    (found : (subroutine.environment className ofClass).place? name = some place) :
    Accessible (subroutine.extent ofClass subroutine.localDeclarations.length) subroutine.kind
      place.segment place.index := by
  simp only [Subroutine.environment, Environment.ofDeclarations] at found
  split at found
  · next symbol ofSubroutine =>
      cases found
      exact accessible_of_subroutine admissible.counts unreserved ofSubroutine
  · obtain ⟨symbol, ofClass, rfl⟩ := Option.map_eq_some_iff.1 found
    exact accessible_of_class _ ofClass

/-- The instructions in the body of a subroutine are harmless if names stand for what is
accessible. -/
theorem harmless_of_statement {environment : Environment} {Allowed : String → Prop} {locals : Nat}
    {instruction : Instruction}
    (accessible : ∀ {name place}, Allowed name → environment.place? name = some place →
      Accessible (subroutine.extent ofClass locals) subroutine.kind place.segment place.index)
    (within : StatementInstruction environment Allowed instruction) :
    instruction.Harmless (subroutine.extent ofClass locals) subroutine.kind := by
  have that : Accessible (subroutine.extent ofClass locals) subroutine.kind .that 0 :=
    ⟨Nat.one_pos, nofun, nofun, nofun⟩
  have temp : Accessible (subroutine.extent ofClass locals) subroutine.kind .temp 0 :=
    ⟨Nat.one_pos, nofun, nofun, nofun⟩
  cases within with
  | expression within =>
      cases within with
      | load allowed found => exact (accessible allowed found).push
      | constant word => exact ⟨.inl rfl, nofun, nofun⟩
      | this => exact ⟨.inr Nat.two_pos, nofun, nofun⟩
      | address => exact ⟨⟨nofun, Nat.one_lt_two⟩, nofun, nofun⟩
      | element => exact that.push
      | command operation => exact ⟨trivial, nofun, nofun⟩
      | call name count => exact ⟨trivial, nofun, nofun⟩
  | store allowed found => exact (accessible allowed found).pop
  | keep => exact temp.pop
  | restore => exact temp.push
  | storeElement => exact that.pop
  | label label | goto label | ifGoto label => exact ⟨trivial, nofun, nofun⟩
  | «return» => exact ⟨trivial, nofun, nofun⟩

/-- A prologue accesses the receiver of a method and the current object. -/
theorem inside_prologue (locals fieldCount : Nat) :
    ∀ instruction ∈ subroutine.kind.prologue fieldCount,
      instruction.Inside (subroutine.extent ofClass locals) := by
  cases isKind : subroutine.kind with
  | function => exact List.forall_mem_nil _
  | constructor =>
      exact Consists.cons (.inl rfl) (.cons trivial (.single ⟨nofun, Nat.two_pos⟩))
  | method =>
      have receiver : (0 : UInt16).toNat < subroutine.extent ofClass locals .argument := by
        rw [Subroutine.extent, if_pos isKind]
        exact Nat.succ_pos _
      exact Consists.cons (.inr receiver) (.single ⟨nofun, Nat.two_pos⟩)

end Subroutines

end Grammar

/-! ## Compiled units -/

/-- The block of a subroutine keeps to its segments, and no part of it but the prologue of its kind
sets the current object or accesses the receiver of a method. -/
structure Block.Protects (declaration : ClassDeclaration) (subroutine : Subroutine)
    (block : Block) : Prop where
  name : block.name = declaration.name ++ "." ++ subroutine.name
  inside : ∀ instruction ∈ block.body,
    instruction.Inside (subroutine.extent declaration.declarations block.locals.toNat)
  prologue : ∃ rest, block.body =
      subroutine.kind.prologue (Declaration.count declaration.declarations .field) ++ rest ∧
    .pop .pointer 0 ∉ rest ∧
    (subroutine.kind = .method →
      ∀ instruction ∈ rest, instruction.operand? ≠ some (.argument, 0))

/-- In a compiled unit every access to memory is inside its segment, constructors ask for one word
for each field, and only prologues touch the current object and the receivers of methods. -/
theorem compile_operands_inside {σ : Type} [LabelSource σ] {start labels : σ}
    {unit source : String} {compiled : CompiledUnit} (fits : source.utf8ByteSize ≤ Span.maxOffset)
    (success : compile start unit source = (.ok compiled, labels)) :
    (blocks compiled.code.toList).flatMap Block.instructions = compiled.code.toList ∧
    ∃ tree : ClassDeclaration, tree.IsTreeOf source ∧
      (UInt16.ofNat (Declaration.count tree.declarations .field)).toNat =
        Declaration.count tree.declarations .field ∧
      List.Forall₂ (fun block subroutine => Block.Protects tree subroutine block)
        (blocks compiled.code.toList) tree.subroutines := by
  obtain ⟨whole, tree, isTree, admissible, belong⟩ :=
    blocks_of_compile (LabelSource.numbering start) fits (LabelSource.numbering_stands start)
      success
  refine ⟨whole, tree, isTree, toNat_count (admissible.counts .field), belong.imp ?_⟩
  rintro block subroutine ⟨member, number, rfl⟩
  have ofSubroutine := admissible.subroutines subroutine member
  have locals := ofSubroutine.toNat_locals
  have harmless : Consists (Instruction.Harmless
      (subroutine.extent tree.declarations subroutine.localDeclarations.length) subroutine.kind)
      (subroutine.body.code (subroutine.environment tree.name tree.declarations)
        (LabelSource.numbering start).label number) := by
    intro instruction inBody
    exact harmless_of_statement ofSubroutine.accessible
      (subroutine.body.consists _ (isTree.names.body member) number instruction inBody)
  refine ⟨rfl, ?_, _, rfl, ?_, ?_⟩
  · simp only [Subroutine.block, locals]
    exact Consists.append (inside_prologue _ _) fun instruction inBody =>
      (harmless instruction inBody).inside
  · exact fun inBody => (harmless _ inBody).pointer rfl
  · exact fun isMethod instruction inBody => (harmless instruction inBody).receiver isMethod

/-- A parameter that hides a field is the argument behind the receiver. -/
theorem compile_operands_inside_of_method :
    ∃ (source : String) (compiled : CompiledUnit) (labels : SharedLabels) (tree : ClassDeclaration)
      (subroutine : Subroutine) (block : Block), source.utf8ByteSize ≤ Span.maxOffset ∧
      compile ({} : SharedLabels) "A" source = (.ok compiled, labels) ∧ tree.IsTreeOf source ∧
      tree.subroutines = [subroutine] ∧ blocks compiled.code.toList = [block] ∧
      block.body = [.push .argument 0, .pop .pointer 0, .push .argument 1, .pop .this 1,
        .push .this 1, .return] ∧
      Block.Protects tree subroutine block := by
  let source := "class A{field int x,y;method int f(int x){let y=x;return y;}}"
  let read (name : String) : Expression := .mk (.name name) .nil
  let body : Statements := .cons (.assign "y" (read "x")) (.cons (.return (some (read "y"))) .nil)
  let method : Subroutine := ⟨.method, some .int, "f", [⟨.int, "x"⟩], [], body⟩
  let tree : ClassDeclaration := ⟨"A", [⟨.field, ⟨.int, "x", ["y"]⟩⟩], [method]⟩
  let block : Block := ⟨"A.f", 0, [.push .argument 0, .pop .pointer 0, .push .argument 1,
    .pop .this 1, .push .this 1, .return]⟩
  have fits : source.utf8ByteSize ≤ Span.maxOffset := by decide +kernel
  have isTree : tree.IsTreeOf source := by decide +kernel
  have admissible : tree.Admissible := by
    have counts : ∀ storage, Declaration.count (method.declarations "A") storage ≤ maxCount := by
      intro storage
      cases storage <;> decide
    have visible : ∀ name ∈ ["y", "x", "y"],
        Demand.Met (method.environment "A" tree.declarations) (.visible name) := by
      unfold Demand.Met
      decide
    refine ⟨?_, List.forall_mem_singleton.2 ⟨counts, List.forall_mem_map.2 visible⟩⟩
    intro storage
    cases storage <;> decide
  obtain ⟨compiled, outcome⟩ := exists_compile_of_tree isTree admissible
    (compile_of_plenty "A" (SharedLabels.drawn?_eq {} _)).2.1
  have success : compile ({} : SharedLabels) "A" source = (.ok compiled, _) := Prod.ext outcome rfl
  obtain ⟨other, isOther, _, _, isCode, _⟩ :=
    tree_of_compile _ fits (LabelSource.numbering_stands _) success
  obtain rfl := isOther.unique isTree
  have isBlock : blocks compiled.code.toList = [block] := by
    rw [isCode]
    rfl
  obtain ⟨_, other, isOther, _, protects⟩ := compile_operands_inside fits success
  obtain rfl := isOther.unique isTree
  rw [isBlock] at protects
  exact ⟨source, compiled, _, tree, method, block, fits, success, isTree, rfl, isBlock, rfl,
    (List.forall₂_cons.1 protects).1⟩

end JackCompiler
