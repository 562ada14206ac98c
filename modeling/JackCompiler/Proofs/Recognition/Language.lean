import JackCompiler.Proofs.Recognition.Agreement
import JackCompiler.Proofs.Recognition.ClassComplete

/-!
# The language of the compiler

The sources that compile are those whose tokens are derivable from the class grammar, whose names
are declared where they are used, and whose counts fit in a word. One direction is that what the
pass recognises has a tree, the other that the pass recognises whatever has an admissible tree.
-/

namespace JackCompiler

open Grammar

namespace Environment

/-- Exactly the declared names stand for something. -/
theorem isSome_place?_iff {className : String} {ofClass : List (Declaration ClassStorage)}
    {ofSubroutine : List (Declaration SubroutineStorage)} {name : String} :
    ((ofDeclarations className ofClass ofSubroutine).place? name).isSome ↔
      (∃ declaration ∈ ofClass, declaration.name = name) ∨
        ∃ declaration ∈ ofSubroutine, declaration.name = name := by
  simp only [ofDeclarations]
  rw [← Declaration.isSome_symbol?_iff, ← Declaration.isSome_symbol?_iff]
  cases Declaration.symbol? ofSubroutine name with
  | none => simp
  | some symbol => simp

end Environment

namespace Grammar

/-- The names that can be used in a subroutine: the variables of its class, its parameters with the
object it is called on, and its local variables. -/
def Subroutine.Declares (className : String) (ofClass : List (Declaration ClassStorage))
    (subroutine : Subroutine) (name : String) : Prop :=
  (∃ declaration ∈ ofClass, declaration.name = name) ∨
    ∃ declaration ∈ subroutine.declarations className, declaration.name = name

/-- Whether a subroutine keeps to the rules that are no matter of grammar. -/
structure Subroutine.Lawful (className : String) (ofClass : List (Declaration ClassStorage))
    (subroutine : Subroutine) : Prop where
  /-- Parameters with the receiver, and locals, can be counted. -/
  counts : ∀ storage, Declaration.count (subroutine.declarations className) storage ≤ maxCount
  /-- Every variable that is read or assigned is declared. -/
  uses : ∀ name,
    .visible name ∈ subroutine.body.demands (subroutine.environment className ofClass) →
      subroutine.Declares className ofClass name
  /-- The arguments of every call, with its receiver, can be counted. -/
  calls : ∀ words,
    .countable words ∈ subroutine.body.demands (subroutine.environment className ofClass) →
      words ≤ maxCount

/-- Whether a source is in the language, by the tree of a class. -/
structure ClassDeclaration.Derives (tree : ClassDeclaration) (source : String) : Prop where
  /-- The source lexes, and its tokens are the yield of the tree. -/
  isTree : tree.IsTreeOf source
  /-- Statics and fields can be counted. -/
  counts : ∀ storage, Declaration.count tree.declarations storage ≤ maxCount
  subroutines : ∀ subroutine ∈ tree.subroutines, subroutine.Lawful tree.name tree.declarations

theorem Subroutine.declares_iff {className : String} {ofClass : List (Declaration ClassStorage)}
    {subroutine : Subroutine} {name : String} : subroutine.Declares className ofClass name ↔
      ((subroutine.environment className ofClass).place? name).isSome := by
  unfold Subroutine.environment
  rw [Environment.isSome_place?_iff]
  simp [Subroutine.Declares]

theorem Subroutine.lawful_iff_admissible {className : String}
    {ofClass : List (Declaration ClassStorage)} {subroutine : Subroutine} :
    subroutine.Lawful className ofClass ↔ subroutine.Admissible className ofClass := by
  constructor
  · intro lawful
    refine ⟨lawful.counts, ?_⟩
    rintro (name | words) member
    · exact Subroutine.declares_iff.1 (lawful.uses name member)
    · exact lawful.calls words member
  · intro admissible
    refine ⟨admissible.counts, ?_, ?_⟩
    · intro name member
      exact Subroutine.declares_iff.2 (admissible.demands _ member)
    · intro words member
      exact admissible.demands _ member

theorem ClassDeclaration.derives_iff {tree : ClassDeclaration} {source : String} :
    tree.Derives source ↔ tree.IsTreeOf source ∧ tree.Admissible := by
  constructor
  · intro derives
    refine ⟨derives.isTree, derives.counts, ?_⟩
    intro subroutine member
    exact Subroutine.lawful_iff_admissible.1 (derives.subroutines subroutine member)
  · rintro ⟨isTree, admissible⟩
    refine ⟨isTree, admissible.counts, ?_⟩
    intro subroutine member
    exact Subroutine.lawful_iff_admissible.2 (admissible.subroutines subroutine member)

end Grammar

section Compilers

variable {σ : Type} [LabelSource σ] {labels : σ} {unit source : String}

/-- A source with an admissible tree compiles, unless the labels run out. -/
theorem exists_compile_of_tree {tree : ClassDeclaration} (isTree : tree.IsTreeOf source)
    (admissible : tree.Admissible)
    (plenty : (compile labels unit source).1 ≠ .error (.broken .labelsExhausted)) :
    ∃ compiled, (compile labels unit source).1 = .ok compiled := by
  obtain ⟨stream, lexed, shown⟩ := isTree
  have start := TokenStream.start_of_ofText lexed
  unfold TokenStream.terminals? at shown
  rw [start.2] at shown
  obtain ⟨ending, whole, ended⟩ := TokenStream.Reads.exists_end shown
  have room : stream.remaining.length < stream.size + 1 := by
    unfold TokenStream.size
    omega
  have recognised : Pass.classDeclaration.Ends ⟨source, stream.size + 1⟩
      ⟨stream, labels, .empty, ""⟩ fun _ _ => True :=
    Pass.ends_classDeclaration admissible rfl room whole ended
  unfold compile at plenty ⊢
  rw [lexed] at plenty ⊢
  simp only [compileTokens] at plenty ⊢
  unfold Pass.Ends at recognised
  cases outcome : Pass.classDeclaration.run ⟨source, stream.size + 1⟩
      ⟨stream, labels, .empty, ""⟩ with
  | done code state => exact ⟨_, rfl⟩
  | halted reason state =>
      rw [outcome] at recognised plenty
      rw [recognised] at plenty
      exact absurd rfl plenty

/-- A unit compiles exactly if its source is in the language, unless the labels run out. A source
that does not lex is turned down for its first lexical error. -/
theorem compile_accepts_language (fits : source.utf8ByteSize ≤ Span.maxOffset)
    (plenty : (compile labels unit source).1 ≠ .error (.broken .labelsExhausted)) :
    ((∃ compiled, (compile labels unit source).1 = .ok compiled) ↔
      ∃ tree : ClassDeclaration, tree.Derives source) ∧
    ∀ failure, TokenStream.ofText source = .error failure →
      ∃ position, failure.span.position? source = some position ∧
        compile labels unit source =
          (.error (.error ⟨unit, position, .lexical failure.value⟩), labels) := by
  refine ⟨⟨?_, ?_⟩, ?_⟩
  · rintro ⟨compiled, success⟩
    have success : compile labels unit source = (.ok compiled, (compile labels unit source).2) :=
      Prod.ext success rfl
    obtain ⟨tree, isTree, admissible, _⟩ :=
      tree_of_compile (LabelSource.numbering labels) fits (LabelSource.numbering_stands labels)
        success
    exact ⟨tree, ClassDeclaration.derives_iff.2 ⟨isTree, admissible⟩⟩
  · rintro ⟨tree, derives⟩
    obtain ⟨isTree, admissible⟩ := ClassDeclaration.derives_iff.1 derives
    exact exists_compile_of_tree isTree admissible plenty
  · intro failure failed
    obtain ⟨position, found⟩ := TokenStream.exists_position_of_ofText failed
    refine ⟨position, found, ?_⟩
    unfold compile Failure.ofCause Error.locate?
    rw [failed]
    simp only [Span.locate, found, Option.map_some]

end Compilers

/-- A comma behind the last of several variables keeps a source out of the language. -/
theorem compile_accepts_language_of_comma :
    ∃ source : String, source.utf8ByteSize ≤ Span.maxOffset ∧
      (compile (⟨0⟩ : LabelCounter) "A" source).1 ≠ .error (.broken .labelsExhausted) ∧
      ¬(∃ tree : ClassDeclaration, tree.Derives source) ∧
      ∀ failure, TokenStream.ofText source ≠ .error failure := by
  have refused : compile (⟨0⟩ : LabelCounter) "A" "class A{field int a,;}" =
      (.error (.error ⟨"A", ⟨1, 21⟩, .grammatical (.unexpected .identifier
        (.punctuation .semicolon))⟩), ⟨0⟩) := by
    decide +kernel
  have fits : "class A{field int a,;}".utf8ByteSize ≤ Span.maxOffset := by decide +kernel
  have plenty : (compile (⟨0⟩ : LabelCounter) "A" "class A{field int a,;}").1 ≠
      .error (.broken .labelsExhausted) := by
    rw [refused]
    simp
  obtain ⟨accepted, lexical⟩ := compile_accepts_language fits plenty
  refine ⟨_, fits, plenty, ?_, ?_⟩
  · intro derives
    obtain ⟨compiled, success⟩ := accepted.2 derives
    rw [refused] at success
    cases success
  · intro failure failed
    obtain ⟨_, _, found⟩ := lexical failure failed
    rw [refused] at found
    cases found

end JackCompiler
