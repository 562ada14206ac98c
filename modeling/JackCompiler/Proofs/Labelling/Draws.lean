import JackCompiler.Proofs.Generation.Labels
import JackCompiler.Proofs.Labelling.Recognisers
import JackCompiler.Proofs.Recognition.Language

/-!
# How many labels a source wants

The number of labels that are drawn while a text is compiled is a matter of the text alone. With
that many labels, or more, the outcome is the same for every source of labels up to the labels in
the code; with fewer, the labels run out, all of them drawn.
-/

namespace JackCompiler

open Grammar

/-- The labels of a tally are all alike. -/
def Tally.numbering : LabelSource.Numbering Tally where
  label _ := ⟨0⟩
  Stands number tally := tally.count = number
  draws := by
    rintro number labels after drawn rfl step
    cases step
    exact ⟨rfl, rfl⟩

/-- How many labels are drawn while a text is compiled, if they do not run out. -/
def labelsWanted (source : String) : Nat := (compile (⟨0⟩ : Tally) "" source).2.count

section Compilers

variable {τ : Type} [LabelSource τ] {first after : τ} {unit source : String}

/-- The name of a unit serves error messages alone. -/
theorem labels_of_unit (first : τ) (unit source : String) :
    (compile first unit source).2 = (compile first "" source).2 := by
  unfold compile
  cases TokenStream.ofText source <;> rfl

/-- An error in a source is not a want of labels. -/
theorem ofCause_ne_exhausted {cause : Located ErrorKind} :
    Failure.ofCause unit source cause ≠ .broken .labelsExhausted := by
  unfold Failure.ofCause
  cases Error.locate? unit source cause <;> simp

theorem ofHalt_ne_exhausted {reason : Halt} (other : reason ≠ .broken .labelsExhausted) :
    Failure.ofHalt unit source reason ≠ .broken .labelsExhausted := by
  cases reason with
  | rejected cause => exact ofCause_ne_exhausted
  | broken breakdown => exact fun same => other (congrArg Halt.broken (Failure.broken.inj same))

/-- The two ways in which a compilation can go with given labels. -/
theorem compile_cases (first : τ) (unit source : String) :
    (LabelSource.drawn? first (labelsWanted source) = some (compile first unit source).2 ∧
      (compile first unit source).1 ≠ .error (.broken .labelsExhausted) ∧
      (compile first unit source).1.map CompiledUnit.className =
        (compile (⟨0⟩ : Tally) unit source).1.map CompiledUnit.className) ∨
    (LabelSource.drawn? first (labelsWanted source) = none ∧
      (compile first unit source).1 = .error (.broken .labelsExhausted) ∧
      LabelSource.draw? (compile first unit source).2 = none ∧
      ∃ number, LabelSource.drawn? first number = some (compile first unit source).2) := by
  unfold labelsWanted
  rw [← labels_of_unit _ unit]
  unfold compile
  cases TokenStream.ofText source with
  | error failure =>
      exact .inl ⟨rfl, fun same => ofCause_ne_exhausted (Except.error.inj same), rfl⟩
  | ok stream =>
      let context : PassContext := ⟨source, stream.size + 1⟩
      let blank : PassState Tally := ⟨stream, ⟨0⟩, .empty, ""⟩
      let start : PassState τ := ⟨stream, first, .empty, ""⟩
      have agrees : Agrees first (fun _ => ()) (Pass.classDeclaration.run context blank)
          (Pass.classDeclaration.run context start) :=
        Pass.follows_classDeclaration.agrees context ⟨rfl, rfl, rfl, rfl⟩
      simp only [compileTokens]
      revert agrees
      generalize Pass.classDeclaration.run context blank = result
      generalize Pass.classDeclaration.run context start = result'
      rintro (⟨_, abreast⟩ | ⟨other, labels⟩ | ⟨reached, empty, past⟩)
      · exact .inl ⟨abreast.labels, by rintro ⟨⟩, congrArg Except.ok abreast.className.symm⟩
      · refine .inl ⟨labels, fun same => ofHalt_ne_exhausted other (Except.error.inj same), rfl⟩
      · refine .inr ⟨?_, rfl, empty, _, reached⟩
        cases result <;> exact past

/-- With labels enough as many are drawn as are wanted, and the verdict is that on a tally. -/
theorem compile_of_plenty (unit : String)
    (plenty : LabelSource.drawn? first (labelsWanted source) = some after) :
    (compile first unit source).2 = after ∧
      (compile first unit source).1 ≠ .error (.broken .labelsExhausted) ∧
      (compile first unit source).1.map CompiledUnit.className =
        (compile (⟨0⟩ : Tally) unit source).1.map CompiledUnit.className := by
  rcases compile_cases first unit source with ⟨drawn, verdict⟩ | ⟨short, _⟩
  · rw [plenty, Option.some.injEq] at drawn
    exact ⟨drawn.symm, verdict⟩
  · rw [plenty] at short
    cases short

/-- With too few labels all of them are drawn, and the pass breaks off. -/
theorem compile_of_shortage (unit : String)
    (short : LabelSource.drawn? first (labelsWanted source) = none) :
    (compile first unit source).1 = .error (.broken .labelsExhausted) := by
  rcases compile_cases first unit source with ⟨drawn, _⟩ | ⟨_, exhausted, _⟩
  · rw [short] at drawn
    cases drawn
  · exact exhausted

/-- However a compilation ends, what is left of the labels is what was not drawn. -/
theorem exists_drawn_of_compile (first : τ) (unit source : String) :
    ∃ number, LabelSource.drawn? first number = some (compile first unit source).2 := by
  rcases compile_cases first unit source with ⟨drawn, _⟩ | ⟨_, _, _, reached⟩
  · exact ⟨_, drawn⟩
  · exact reached

/-- A text that compiles wants as many labels as its tree draws. -/
theorem labelsWanted_eq (fits : source.utf8ByteSize ≤ Span.maxOffset) {compiled : CompiledUnit}
    (success : (compile first unit source).1 = .ok compiled) {tree : ClassDeclaration}
    (isTree : tree.IsTreeOf source) : labelsWanted source = labelCount tree.subroutines := by
  rcases compile_cases first unit source with ⟨_, _, same⟩ | ⟨_, exhausted, _⟩
  · rw [success] at same
    cases tallied : compile (⟨0⟩ : Tally) unit source with
    | mk outcome tally =>
        rw [tallied] at same
        cases outcome with
        | error failure => cases same
        | ok compiled =>
            obtain ⟨other, isOther, _, _, _, stands⟩ :=
              tree_of_compile Tally.numbering fits rfl tallied
            rw [isOther.unique isTree, Nat.zero_add] at stands
            rw [labelsWanted, ← labels_of_unit _ unit, tallied]
            exact stands
  · rw [success] at exhausted
    cases exhausted

/-- A tally does not run out. -/
theorem plenty_of_tally (tally : Tally) (unit source : String) :
    (compile tally unit source).1 ≠ .error (.broken .labelsExhausted) := by
  rcases compile_cases tally unit source with ⟨_, plenty, _⟩ | ⟨_, _, empty, _⟩
  · exact plenty
  · cases empty

/-- A text with an admissible tree compiles with the labels that the tree draws. -/
theorem compile_of_tree (unit : String) (fits : source.utf8ByteSize ≤ Span.maxOffset)
    {tree : ClassDeclaration} (isTree : tree.IsTreeOf source) (admissible : tree.Admissible)
    (drawn : LabelSource.drawn? first (labelCount tree.subroutines) = some after) :
    ∃ compiled, compile first unit source = (.ok compiled, after) ∧
      compiled.className = tree.name ∧
      compiled.code.toList = tree.code (LabelSource.numbering first).label 0 := by
  obtain ⟨_, tallied⟩ := exists_compile_of_tree isTree admissible (plenty_of_tally ⟨0⟩ unit source)
  rw [← labelsWanted_eq fits tallied isTree] at drawn
  obtain ⟨left, plenty, _⟩ := compile_of_plenty unit drawn
  obtain ⟨compiled, success⟩ := exists_compile_of_tree isTree admissible plenty
  obtain ⟨other, isOther, _, name, isCode, _⟩ :=
    tree_of_compile (LabelSource.numbering first) fits (LabelSource.numbering_stands first)
      (Prod.ext success rfl)
  obtain rfl := isOther.unique isTree
  exact ⟨compiled, Prod.ext success left, name, isCode⟩

section Sources

variable {σ : Type} [LabelSource σ] {other past : σ}

/-- Sources that hand out the same labels for as long as they are wanted lead to the same code. -/
theorem compiled_eq_of_labels (fits : source.utf8ByteSize ≤ Span.maxOffset)
    {compiled compiled' : CompiledUnit} (success : (compile first unit source).1 = .ok compiled)
    (success' : (compile other unit source).1 = .ok compiled')
    (same : ∀ number < labelsWanted source,
      (LabelSource.numbering first).label number = (LabelSource.numbering other).label number) :
    compiled = compiled' := by
  obtain ⟨tree, isTree, _, name, isCode, _⟩ :=
    tree_of_compile (LabelSource.numbering first) fits (LabelSource.numbering_stands first)
      (Prod.ext success rfl)
  obtain ⟨tree', isTree', _, name', isCode', _⟩ :=
    tree_of_compile (LabelSource.numbering other) fits (LabelSource.numbering_stands other)
      (Prod.ext success' rfl)
  obtain rfl := isTree'.unique isTree
  rw [labelsWanted_eq fits success isTree] at same
  have codes : compiled.code = compiled'.code := by
    refine Code.toList_injective ?_
    rw [isCode, isCode']
    exact subroutinesCode_congr _ _ _ fun number _ below => same number (by omega)
  obtain ⟨_, _⟩ := compiled
  obtain ⟨_, _⟩ := compiled'
  cases codes
  cases name
  cases name'
  rfl

/-- Sources that hand out the same labels for as long as they are wanted lead to the same
outcome. -/
theorem outcome_eq_of_labels (unit : String) (fits : source.utf8ByteSize ≤ Span.maxOffset)
    (plenty : LabelSource.drawn? first (labelsWanted source) = some after)
    (plenty' : LabelSource.drawn? other (labelsWanted source) = some past)
    (same : ∀ number < labelsWanted source,
      (LabelSource.numbering first).label number = (LabelSource.numbering other).label number) :
    (compile first unit source).1 = (compile other unit source).1 := by
  have verdict : (compile first unit source).1.map CompiledUnit.className =
      (compile other unit source).1.map CompiledUnit.className := by
    rw [(compile_of_plenty unit plenty).2.2, (compile_of_plenty unit plenty').2.2]
  cases left : (compile first unit source).1 with
  | error failure =>
      cases right : (compile other unit source).1 with
      | error failure' =>
          rw [left, right] at verdict
          exact congrArg Except.error (Except.error.inj verdict)
      | ok compiled' =>
          rw [left, right] at verdict
          cases verdict
  | ok compiled =>
      cases right : (compile other unit source).1 with
      | error failure' =>
          rw [left, right] at verdict
          cases verdict
      | ok compiled' => rw [compiled_eq_of_labels fits left right same]

end Sources

end Compilers

end JackCompiler
