import JackCompiler.Proofs.Prediction.Trees
import JackCompiler.Proofs.Prediction.Verdict

/-!
# Subroutines on their own

A class compiles as its subroutines do, each in a class of its own with the same name and the same
class variables: nothing that is known of one subroutine is left when the next one begins. Of such
classes the first that fails decides how the whole one fails.
-/

namespace JackCompiler

open Grammar

namespace Grammar.ClassDeclaration

variable (tree : ClassDeclaration)

/-- The class with one of its subroutines alone. -/
def only (subroutine : Subroutine) : ClassDeclaration := { tree with subroutines := [subroutine] }

/-- Whether a unit, by its name and source, is a class with a subroutine alone. -/
def IsPart (subroutine : Subroutine) (part : String × String) : Prop :=
  (tree.only subroutine).IsTreeOf part.2 ∧ part.2.utf8ByteSize ≤ Span.maxOffset

instance (subroutine : Subroutine) (part : String × String) :
    Decidable (tree.IsPart subroutine part) :=
  inferInstanceAs (Decidable (_ ∧ _))

end Grammar.ClassDeclaration

/-- The first unit leaves the labels for the others. -/
theorem Compiler.compileAll_cons {σ : Type} [LabelSource σ] (compiler : Compiler σ)
    (part : String × String) (parts : List (String × String)) :
    compiler.compileAll (part :: parts) =
      ((JackCompiler.compile compiler.labels part.1 part.2).1 ::
          ((⟨(JackCompiler.compile compiler.labels part.1 part.2).2⟩ : Compiler σ).compileAll
            parts).1,
        ((⟨(JackCompiler.compile compiler.labels part.1 part.2).2⟩ : Compiler σ).compileAll
          parts).2) := rfl

namespace Prediction

/-! ## Verdicts -/

/-- The kind of the first error in a tree, if there is any. -/
def verdict (tree : ClassDeclaration) : Option ErrorKind :=
  (firstUnmet (classRequests tree)).map Refusal.error

/-- The kind of the first error in a subroutine of a class, wherever it stands. -/
def subroutineVerdict (className : String) (ofClass : List (Declaration ClassStorage))
    (subroutine : Subroutine) : Option ErrorKind :=
  (firstUnmet (subroutineRequests className ofClass 0 subroutine)).map Refusal.error

section Verdicts

variable {className : String} {ofClass : List (Declaration ClassStorage)}

/-- The first request of a subroutine that is not met is what its verdict says. -/
theorem error_of_subroutine (place : Nat) (subroutine : Subroutine) :
    (firstUnmet (subroutineRequests className ofClass place subroutine)).map Refusal.error =
      subroutineVerdict className ofClass subroutine := by
  have comes (place : Nat) :
      refusal? [.subroutines] ⟨className, ofClass, []⟩ place
          (subroutine.yield ++ [.mark .rightBrace]) =
        firstUnmet (subroutineRequests className ofClass place subroutine) :=
    (comes_subroutine subroutine).trans Option.or_none
  rw [subroutineVerdict, ← comes, ← comes]
  exact error_of_refusal? place 0

/-- The first request of all subroutines that is not met is the first verdict among them. -/
theorem error_of_subroutines (place : Nat) (subroutines : List Subroutine) :
    (firstUnmet (subroutinesRequests className ofClass place subroutines)).map Refusal.error =
      subroutines.findSome? (subroutineVerdict className ofClass) := by
  induction subroutines generalizing place with
  | nil => rfl
  | cons first others inductionHypothesis =>
      rw [subroutinesRequests, firstUnmet_append, Option.map_or, error_of_subroutine,
        inductionHypothesis, List.findSome?_cons]
      cases subroutineVerdict className ofClass first <;> rfl

/-- The first subroutine that has an error on its own decides. -/
theorem verdict_eq {tree : ClassDeclaration} (nonempty : tree.subroutines ≠ []) :
    verdict tree = tree.subroutines.findSome? fun subroutine => verdict (tree.only subroutine) := by
  have split (tree : ClassDeclaration) : verdict tree =
      ((firstUnmet (groupRequests [] 3 tree.groups)).map Refusal.error).or
        (tree.subroutines.findSome? (subroutineVerdict tree.name tree.declarations)) := by
    rw [verdict, classRequests, firstUnmet_append, Option.map_or, error_of_subroutines]
  have alone (subroutine : Subroutine) : verdict (tree.only subroutine) =
      ((firstUnmet (groupRequests [] 3 tree.groups)).map Refusal.error).or
        (subroutineVerdict tree.name tree.declarations subroutine) := by
    rw [split, ClassDeclaration.only, List.findSome?_singleton]
    rfl
  simp only [alone]
  rw [split]
  cases (firstUnmet (groupRequests [] 3 tree.groups)).map Refusal.error with
  | none => rfl
  | some error =>
      -- An error in the class variables is that of every part, so there has to be one.
      obtain ⟨first, others, shape⟩ := List.exists_cons_of_ne_nil nonempty
      rw [shape]
      rfl

/-- Trees lack variables and room, and nothing else. -/
theorem exists_lack_of_verdict {tree : ClassDeclaration} {kind : ErrorKind}
    (failed : verdict tree = some kind) : ∃ lack : Lack, kind = lack.error := by
  obtain ⟨refusal, unmet, rfl⟩ := Option.map_eq_some_iff.1 failed
  obtain ⟨_, lack, _, _, isLack, _⟩ := exists_of_firstUnmet unmet
  exact ⟨lack, isLack⟩

end Verdicts

/-- Whether an outcome is an error of a kind, or a success if there is none. -/
def Settled (outcome : Except Failure CompiledUnit) : Option ErrorKind → Prop
  | none => ∃ compiled, outcome = .ok compiled
  | some kind => ∃ error, outcome = .error (.error error) ∧ error.kind = kind

namespace Settled

variable {outcome : Except Failure CompiledUnit} {failure : Failure} {kind? : Option ErrorKind}

/-- What is settled without an error is a compiled class. -/
theorem eq_none_iff (settled : Settled outcome kind?) :
    kind? = none ↔ ∃ part, outcome = .ok part := by
  cases kind? with
  | none => exact iff_of_true rfl settled
  | some kind =>
      obtain ⟨error, rfl, _⟩ := settled
      exact iff_of_false nofun nofun

/-- What is settled with an error is an error of that kind. -/
theorem exists_error (settled : Settled (.error failure) kind?) :
    ∃ error, failure = .error error ∧ kind? = some error.kind := by
  cases kind? with
  | none =>
      obtain ⟨_, success⟩ := settled
      cases success
  | some kind =>
      obtain ⟨error, failed, rfl⟩ := settled
      exact ⟨error, Except.error.inj failed, rfl⟩

/-- A kind of error that is settled is that of the outcome. -/
theorem exists_of_some {kind : ErrorKind} (settled : Settled outcome kind?)
    (found : kind? = some kind) :
    ∃ error, outcome = .error (.error error) ∧ error.kind = kind := by
  subst found
  exact settled

end Settled

section Compilers

variable {σ : Type} [LabelSource σ] {labels : σ} {unit source : String} {tree : ClassDeclaration}

/-- A source with a tree is settled by the verdict on the tree, while there are labels. -/
theorem settled_of_tree (fits : source.utf8ByteSize ≤ Span.maxOffset) (isTree : tree.IsTreeOf source)
    (plenty : (compile labels unit source).1 ≠ .error (.broken .labelsExhausted)) :
    Settled (compile labels unit source).1 (verdict tree) := by
  obtain ⟨stream, lexed, shown⟩ := isTree
  have true := comesTrue_of_plenty fits lexed shown plenty
  rw [fault?_yield] at true
  unfold verdict
  generalize firstUnmet (classRequests tree) = foretold at true
  cases foretold with
  | none => exact true
  | some refusal =>
      obtain ⟨position, _, failed⟩ := true
      exact ⟨_, failed, rfl⟩

/-- Labels that are enough for the tree of a unit do not run out. -/
theorem plenty_of_tree {number : Nat} (unit : String) (fits : source.utf8ByteSize ≤ Span.maxOffset)
    (isTree : tree.IsTreeOf source) (wanted : labelCount tree.subroutines ≤ number)
    (enough : (LabelSource.drawn? labels number).isSome) :
    (compile labels unit source).1 ≠ .error (.broken .labelsExhausted) ∧
      ∃ fewer ≤ labelCount tree.subroutines,
        LabelSource.drawn? labels fewer = some (compile labels unit source).2 := by
  have fewer := labelsWanted_le_labelCount fits isTree
  rcases compile_cases labels unit source with ⟨drawn, plenty, _⟩ | ⟨short, _⟩
  · exact ⟨plenty, _, fewer, drawn⟩
  · rw [LabelSource.drawn?_eq_none short (Nat.le_trans fewer wanted)] at enough
    cases enough

/-- Labels that are enough for all subroutines do not run out in any of the units. -/
theorem plenty_of_parts {subroutines : List Subroutine} {parts : List (String × String)}
    (compiler : Compiler σ)
    (apart : List.Forall₂ tree.IsPart subroutines parts)
    (enough : (LabelSource.drawn? compiler.labels (labelCount subroutines)).isSome) :
    ∀ outcome ∈ (compiler.compileAll parts).1, outcome ≠ .error (.broken .labelsExhausted) := by
  induction apart generalizing compiler with
  | nil => exact List.forall_mem_nil _
  | @cons first part others _ isPart _ inductionHypothesis =>
      obtain ⟨plenty, fewer, order, drawn⟩ := plenty_of_tree part.1 isPart.2 isPart.1
        (Nat.le_add_right _ _) enough
      rw [Compiler.compileAll_cons]
      refine List.forall_mem_cons.2 ⟨plenty, inductionHypothesis _ ?_⟩
      have split := LabelSource.drawn?_add compiler.labels fewer (labelCount others)
      rw [drawn, Option.bind_some] at split
      by_contra short
      have ended := LabelSource.drawn?_eq_none
        (split.trans (Option.not_isSome_iff_eq_none.1 short)) (Nat.add_le_add_right order _)
      exact Option.not_isSome_iff_eq_none.2 ended enough

/-- Every unit is settled by the verdict on its own tree. -/
theorem settled_compileAll {subroutines : List Subroutine} {parts : List (String × String)}
    (compiler : Compiler σ)
    (apart : List.Forall₂ tree.IsPart subroutines parts)
    (plenty : ∀ outcome ∈ (compiler.compileAll parts).1,
      outcome ≠ .error (.broken .labelsExhausted)) :
    List.Forall₂ (fun subroutine outcome => Settled outcome (verdict (tree.only subroutine)))
      subroutines (compiler.compileAll parts).1 := by
  induction apart generalizing compiler with
  | nil => exact .nil
  | cons part _ inductionHypothesis =>
      rw [Compiler.compileAll_cons] at plenty ⊢
      obtain ⟨plentyFirst, plentyOthers⟩ := List.forall_mem_cons.1 plenty
      exact .cons (settled_of_tree part.2 part.1 plentyFirst)
        (inductionHypothesis _ plentyOthers)

/-- Units that compile one after another have the code of their subroutines in order, with labels
that go on from one to the next. -/
theorem code_compileAll (numbering : LabelSource.Numbering σ) {number : Nat}
    {subroutines : List Subroutine} {parts : List (String × String)} {compiler : Compiler σ}
    (apart : List.Forall₂ tree.IsPart subroutines parts)
    (stands : numbering.Stands number compiler.labels)
    (success : ∀ outcome ∈ (compiler.compileAll parts).1, ∃ part, outcome = .ok part) :
    ∃ units : List CompiledUnit, (compiler.compileAll parts).1 = units.map .ok ∧
      (∀ part ∈ units, part.className = tree.name) ∧
      units.flatMap (fun part => part.code.toList) =
        subroutinesCode tree.name tree.declarations numbering.label number subroutines ∧
      numbering.Stands (number + labelCount subroutines) (compiler.compileAll parts).2.labels := by
  induction apart generalizing compiler number with
  | nil => exact ⟨[], rfl, nofun, rfl, stands⟩
  | @cons first part others behind isPart _ inductionHypothesis =>
      rw [Compiler.compileAll_cons] at success ⊢
      obtain ⟨⟨compiled, compiles⟩, successOthers⟩ := List.forall_mem_cons.1 success
      obtain ⟨other, isOther, _, name, isCode, after⟩ :=
        tree_of_compile numbering isPart.2 stands (Prod.ext compiles rfl)
      obtain rfl := isOther.unique isPart.1
      obtain ⟨units, shape, names, codes, last⟩ := inductionHypothesis after successOthers
      have alone : labelCount (tree.only first).subroutines = first.body.labelCount := rfl
      have code : compiled.code.toList =
          first.code tree.name tree.declarations numbering.label number :=
        isCode.trans (List.append_nil _)
      rw [alone] at codes last
      refine ⟨compiled :: units, ?_, List.forall_mem_cons.2 ⟨name, names⟩, ?_, ?_⟩
      · rw [List.map_cons, ← shape, ← compiles]
      · rw [List.flatMap_cons, code, codes, subroutinesCode]
      · rw [labelCount, ← Nat.add_assoc]
        exact last

end Compilers

section Outcomes

variable {α : Type} {verdict : α → Option ErrorKind} {subroutines : List α}
  {outcomes : List (Except Failure CompiledUnit)}

/-- Outcomes are successes exactly if there is no error. -/
theorem findSome?_eq_none_iff_ok
    (settled : List.Forall₂ (fun subroutine outcome => Settled outcome (verdict subroutine))
      subroutines outcomes) :
    subroutines.findSome? verdict = none ↔ ∀ outcome ∈ outcomes, ∃ part, outcome = .ok part := by
  induction settled with
  | nil => simp
  | cons first _ inductionHypothesis =>
      rw [List.forall_mem_cons, ← inductionHypothesis, ← first.eq_none_iff,
        List.findSome?_eq_none_iff, List.findSome?_eq_none_iff, List.forall_mem_cons]

/-- Of outcomes the first that is a failure has the kind of the first error. -/
theorem findSome?_of_failure {earlier later : List (Except Failure CompiledUnit)}
    {failure : Failure}
    (settled : List.Forall₂ (fun subroutine outcome => Settled outcome (verdict subroutine))
      subroutines (earlier ++ .error failure :: later))
    (succeed : ∀ outcome ∈ earlier, ∃ part, outcome = .ok part) :
    ∃ error, failure = .error error ∧ subroutines.findSome? verdict = some error.kind := by
  induction earlier generalizing subroutines with
  | nil =>
      obtain _ | ⟨first, _⟩ := settled
      obtain ⟨error, failed, found⟩ := first.exists_error
      exact ⟨error, failed, by rw [List.findSome?_cons, found]⟩
  | cons outcome earlier inductionHypothesis =>
      obtain _ | ⟨first, others⟩ := settled
      obtain ⟨succeeds, succeed⟩ := List.forall_mem_cons.1 succeed
      rw [List.findSome?_cons, first.eq_none_iff.2 succeeds]
      exact inductionHypothesis others succeed

end Outcomes

end Prediction

section Compilers

variable {σ : Type} [LabelSource σ] {start : σ} {unit source : String} {tree : ClassDeclaration}
  {parts : List (String × String)}

/-- A class compiles exactly if each of its subroutines does in a class of its own with the same
name and the same class variables, one after another with labels that go on from one to the next.
The code is then that of these classes in order, and as many labels are drawn. If one of them fails
the class fails with the kind of error of the first, a variable or room that is lacking. -/
theorem compile_subroutines_independent (fits : source.utf8ByteSize ≤ Span.maxOffset)
    (isTree : tree.IsTreeOf source) (nonempty : tree.subroutines ≠ [])
    (apart : List.Forall₂ tree.IsPart tree.subroutines parts)
    (plenty : (compile start unit source).1 ≠ .error (.broken .labelsExhausted))
    (plentyApart : ∀ outcome ∈ ((⟨start⟩ : Compiler σ).compileAll parts).1,
      outcome ≠ .error (.broken .labelsExhausted)) :
    ((∃ compiled, (compile start unit source).1 = .ok compiled) ↔
      ∀ outcome ∈ ((⟨start⟩ : Compiler σ).compileAll parts).1, ∃ part, outcome = .ok part) ∧
    (∀ compiled, (compile start unit source).1 = .ok compiled →
      ∃ units : List CompiledUnit,
        ((⟨start⟩ : Compiler σ).compileAll parts).1 = units.map .ok ∧
        (∀ part ∈ units, part.className = compiled.className) ∧
        compiled.code.toList = units.flatMap (fun part => part.code.toList) ∧
        (compile start unit source).2 = ((⟨start⟩ : Compiler σ).compileAll parts).2.labels) ∧
    ∀ (earlier later : List (Except Failure CompiledUnit)) (failure : Failure),
      ((⟨start⟩ : Compiler σ).compileAll parts).1 = earlier ++ .error failure :: later →
      (∀ outcome ∈ earlier, ∃ part, outcome = .ok part) →
      ∃ error whole, failure = .error error ∧
        (compile start unit source).1 = .error (.error whole) ∧ whole.kind = error.kind ∧
        ((∃ name, error.kind = .unresolvedSymbol name) ∨
          ∃ items, error.kind = .limitExceeded items) := by
  have whole := Prediction.settled_of_tree fits isTree plenty
  have each := Prediction.settled_compileAll _ apart plentyApart
  rw [Prediction.verdict_eq nonempty] at whole
  have accepts := whole.eq_none_iff.symm.trans (Prediction.findSome?_eq_none_iff_ok each)
  refine ⟨accepts, ?_, ?_⟩
  · intro compiled success
    let numbering := LabelSource.numbering start
    have stands : numbering.Stands 0 start := LabelSource.numbering_stands start
    obtain ⟨other, isOther, _, name, isCode, after⟩ :=
      tree_of_compile numbering fits stands (Prod.ext success rfl)
    obtain rfl := isOther.unique isTree
    obtain ⟨units, outcomes, names, codes, afterApart⟩ :=
      Prediction.code_compileAll numbering apart stands (accepts.1 ⟨compiled, success⟩)
    refine ⟨units, outcomes, fun part member => (names part member).trans name.symm,
      isCode.trans codes.symm, ?_⟩
    exact Option.some.inj (Eq.trans (Eq.symm after) afterApart)
  · intro earlier later failure outcomes succeed
    rw [outcomes] at each
    obtain ⟨error, failed, first⟩ := Prediction.findSome?_of_failure each succeed
    have sameKind := first
    rw [← Prediction.verdict_eq nonempty] at sameKind
    rw [first] at whole
    obtain ⟨wholeError, wholeFailed, same⟩ := whole
    refine ⟨error, wholeError, failed, wholeFailed, same, ?_⟩
    obtain ⟨lack, isLack⟩ := Prediction.exists_lack_of_verdict sameKind
    cases lack with
    | «variable» name => exact .inl ⟨name, isLack⟩
    | room items => exact .inr ⟨items, isLack⟩

end Compilers

/-- A loop and a choice from label 7 on, and two functions of which the second uses a name that
stands for nothing. -/
theorem compile_subroutines_independent_of_loop :
    ∃ (source faulty : String) (parts faultyParts : List (String × String))
      (compiled : CompiledUnit) (units : List CompiledUnit) (whole : Error),
      compile (⟨7⟩ : LabelCounter) "A" source = (.ok compiled, ⟨11⟩) ∧
      ((⟨⟨7⟩⟩ : Compiler LabelCounter).compileAll parts).1 = units.map .ok ∧
      compiled.code.toList = units.flatMap (fun part => part.code.toList) ∧
      ((⟨⟨7⟩⟩ : Compiler LabelCounter).compileAll parts).2.labels = ⟨11⟩ ∧
      (∃ part error, ((⟨{}⟩ : Compiler LabelCounter).compileAll faultyParts).1 =
          [.ok part, .error (.error error)] ∧ error.kind = .unresolvedSymbol "x") ∧
      (compile ({} : LabelCounter) "A" faulty).1 = .error (.error whole) ∧
      whole.kind = .unresolvedSymbol "x" := by
  let returned (term : Term) : Statements := .cons (.return (some (.mk term .nil))) .nil
  let function (name : String) (body : Statements) : Subroutine :=
    ⟨.function, some .int, name, [], [], body⟩
  let zero : Expression := .mk (.integer 0) .nil
  let loop := function "f" (.cons (.loop zero .nil) .nil)
  let choice := function "g" (.cons (.choice zero .nil .absent) .nil)
  let tree : ClassDeclaration := ⟨"A", [], [loop, choice]⟩
  let source :=
    "class A\x7bfunction int f()\x7bwhile(0)\x7b\x7d\x7dfunction int g()\x7bif(0)\x7b\x7d\x7d\x7d"
  let parts := [("A", "class A\x7bfunction int f()\x7bwhile(0)\x7b\x7d\x7d\x7d"),
    ("A", "class A\x7bfunction int g()\x7bif(0)\x7b\x7d\x7d\x7d")]
  let faultyTree : ClassDeclaration := ⟨"A", [], [function "f" (returned (.integer 1)),
    function "g" (returned (.name "x"))]⟩
  let faulty :=
    "class A\x7bfunction int f()\x7breturn 1;\x7dfunction int g()\x7breturn x;\x7d\x7d"
  let faultyParts := [("A", "class A\x7bfunction int f()\x7breturn 1;\x7d\x7d"),
    ("A", "class A\x7bfunction int g()\x7breturn x;\x7d\x7d")]
  have fits : source.utf8ByteSize ≤ Span.maxOffset := by decide +kernel
  have faultyFits : faulty.utf8ByteSize ≤ Span.maxOffset := by decide +kernel
  have isTree : tree.IsTreeOf source := by decide +kernel
  have isFaulty : faultyTree.IsTreeOf faulty := by decide +kernel
  have apart : List.Forall₂ tree.IsPart tree.subroutines parts :=
    .cons (by decide +kernel) (.cons (by decide +kernel) .nil)
  have faultyApart : List.Forall₂ faultyTree.IsPart faultyTree.subroutines faultyParts :=
    .cons (by decide +kernel) (.cons (by decide +kernel) .nil)
  have success : compile (⟨7⟩ : LabelCounter) "A" source = (.ok ⟨"A", .ofList
      [.function "A.f" 0, .label ⟨7⟩, .push .constant 0, .command .not, .ifGoto ⟨8⟩, .goto ⟨7⟩,
        .label ⟨8⟩, .function "A.g" 0, .push .constant 0, .command .not, .ifGoto ⟨9⟩, .goto ⟨10⟩,
        .label ⟨9⟩, .label ⟨10⟩]⟩, ⟨11⟩) := by
    decide +kernel
  have enough : (LabelSource.drawn? (⟨7⟩ : LabelCounter) (labelCount tree.subroutines)).isSome := by
    decide +kernel
  have plenty := (Prediction.plenty_of_tree "A" fits isTree (Nat.le_refl _) enough).1
  have plentyApart := Prediction.plenty_of_parts (⟨⟨7⟩⟩ : Compiler LabelCounter) apart enough
  obtain ⟨units, shape, _, code, labels⟩ :=
    (compile_subroutines_independent fits isTree nofun apart plenty plentyApart).2.1 _
      (congrArg Prod.fst success)
  rw [congrArg Prod.snd success] at labels
  have enough : (LabelSource.drawn? ({} : LabelCounter) (labelCount faultyTree.subroutines)).isSome :=
    by decide +kernel
  have plenty := (Prediction.plenty_of_tree "A" faultyFits isFaulty (Nat.le_refl _) enough).1
  have plentyApart := Prediction.plenty_of_parts (⟨{}⟩ : Compiler LabelCounter) faultyApart enough
  have settled := Prediction.settled_compileAll _ faultyApart plentyApart
  generalize outcomes : ((⟨{}⟩ : Compiler LabelCounter).compileAll faultyParts).1 = results at settled
  obtain _ | ⟨first, _ | ⟨second, _ | _⟩⟩ := settled
  obtain ⟨part, rfl⟩ := first.eq_none_iff.1 (by decide +kernel)
  obtain ⟨error, rfl, kind⟩ := second.exists_of_some
    (show _ = some (.unresolvedSymbol "x") by decide +kernel)
  obtain ⟨_, whole, failed, fails, sameKind, _⟩ :=
    (compile_subroutines_independent faultyFits isFaulty nofun faultyApart plenty plentyApart).2.2
      [.ok part] [] _ outcomes (List.forall_mem_singleton.2 ⟨_, rfl⟩)
  cases failed
  exact ⟨source, faulty, parts, faultyParts, _, units, whole, success, shape, code, labels.symm,
    ⟨part, error, outcomes, kind⟩, fails, sameKind.trans kind⟩

end JackCompiler
