import JackCompiler.Proofs.Labelling.Workshop
import JackCompiler.Proofs.Output.Jumps
import Mathlib.Data.List.Nodup
import Mathlib.Algebra.Group.Nat.Defs

/-!
# Labels are unique in a program

No label is defined twice in the units of one program, whether one compiler compiles them one after
another or many compilers with handles to the same labels do so at the same time. Units that fail
define none, and the labels that were drawn for them are not drawn again.

A counter only moves forward, so units that are compiled later have greater labels. Labels that are
shared are each drawn by one call; a call keeps them until it ends, and then the unit that it yields
defines some of them. That the labels belong to different calls and units is what a step preserves.
-/

namespace JackCompiler

open Grammar

/-- The labels that are defined in the unit that a call yields, if it yields one. -/
def labelsOf : Except Failure CompiledUnit → List Label
  | .ok compiled => definedLabels compiled.code.toList
  | .error _ => []

/-- A unit defines the labels that were drawn for it, each once, if they are all different. -/
theorem definedLabels_of_compile {σ : Type} [LabelSource σ] (numbering : LabelSource.Numbering σ)
    {number : Nat} {start after : σ} {unit source : String} {compiled : CompiledUnit}
    (fits : source.utf8ByteSize ≤ Span.maxOffset) (stands : numbering.Stands number start)
    (success : compile start unit source = (.ok compiled, after)) :
    ∃ count, numbering.Stands (number + count) after ∧
      (Set.InjOn numbering.label (Set.Ico number (number + count)) →
        (definedLabels compiled.code.toList).Perm
          ((List.range' number count).map numbering.label)) := by
  obtain ⟨tree, _, _, _, isCode, stands⟩ := tree_of_compile numbering fits stands success
  refine ⟨labelCount tree.subroutines, stands, ?_⟩
  intro distinct
  rw [isCode]
  exact definedLabels_subroutinesCode tree.subroutines distinct

/-! ## One compiler -/

namespace LabelCounter

variable (start : LabelCounter) (unit source : String)

/-- A counter never goes back, however a call ends. -/
theorem next_le_of_compile :
    start.next.toNat ≤ (compile start unit source).2.next.toNat := by
  obtain ⟨number, drawn⟩ := exists_drawn_of_compile start unit source
  rw [next_of_drawn? drawn]
  exact Nat.le_add_right _ _

/-- The labels in a unit are those between the two states of the counter. -/
theorem labelsOf_compile {source : String} (fits : source.utf8ByteSize ≤ Span.maxOffset) :
    (labelsOf (compile start unit source).1).Nodup ∧
      ∀ label ∈ labelsOf (compile start unit source).1,
        start.next.toNat ≤ label.number.toNat ∧
          label.number.toNat < (compile start unit source).2.next.toNat := by
  cases outcome : compile start unit source with
  | mk result after =>
      cases result with
      | error failure => exact ⟨List.nodup_nil, List.forall_mem_nil _⟩
      | ok compiled =>
          obtain ⟨count, stands, perm⟩ := definedLabels_of_compile numbering fits rfl outcome
          have ended : after.next.toNat = start.next.toNat + count := stands
          have distinct : Set.InjOn numbering.label
              (Set.Ico start.next.toNat (start.next.toNat + count)) := ended ▸ after.label_injOn
          have perm := perm distinct
          refine ⟨perm.nodup_iff.2 (List.Nodup.map_on ?_ List.nodup_range'), ?_⟩
          · intro left leftIn right rightIn same
            exact distinct (List.mem_range'_1.1 leftIn) (List.mem_range'_1.1 rightIn) same
          · intro label member
            obtain ⟨number, within, rfl⟩ := List.mem_map.1 (perm.mem_iff.1 member)
            have bounds := List.mem_range'_1.1 within
            have bound := after.next.toNat_lt
            rw [number_label (by omega), ended]
            exact bounds

end LabelCounter

/-- The labels in the units of one compiler are different, and none is below its counter. -/
theorem Compiler.labels_nodup (units : List (String × String))
    (fits : ∀ unit ∈ units, unit.2.utf8ByteSize ≤ Span.maxOffset)
    (compiler : Compiler LabelCounter) :
    ((compiler.compileAll units).1.flatMap labelsOf).Nodup ∧
      ∀ label ∈ (compiler.compileAll units).1.flatMap labelsOf,
        compiler.labels.next.toNat ≤ label.number.toNat := by
  induction units generalizing compiler with
  | nil => exact ⟨List.nodup_nil, List.forall_mem_nil _⟩
  | cons unit units inductionHypothesis =>
      obtain ⟨fitsFirst, fitsOthers⟩ := List.forall_mem_cons.1 fits
      have onwards := compiler.labels.next_le_of_compile unit.1 unit.2
      have first := compiler.labels.labelsOf_compile unit.1 fitsFirst
      have others := inductionHypothesis fitsOthers
        ⟨(JackCompiler.compile compiler.labels unit.1 unit.2).2⟩
      simp only [Compiler.compileAll, Compiler.compile, List.flatMap_cons]
      constructor
      · refine List.nodup_append'.2 ⟨first.1, others.1, ?_⟩
        intro label ofFirst ofOthers
        have before := (first.2 label ofFirst).2
        have after := others.2 label ofOthers
        exact absurd before (Nat.not_lt.2 after)
      · intro label member
        rcases List.mem_append.1 member with ofFirst | ofOthers
        · exact (first.2 label ofFirst).1
        · exact Nat.le_trans onwards (others.2 label ofOthers)

/-! ## Compilers at work together -/

/-- Each of the first labels of a sequence is in the hands of at most one holder, and no others
are. -/
structure Shares {ι : Type} (sequence : Nat → Label) (count : Nat) (held : ι → List Label) :
    Prop where
  nodup : ∀ holder, (held holder).Nodup
  disjoint : ∀ left right, left ≠ right → (held left).Disjoint (held right)
  drawn : ∀ holder, ∀ label ∈ held holder, ∃ number < count, label = sequence number

namespace Shares

variable {ι : Type} {sequence : Nat → Label} {count : Nat} {held : ι → List Label}

/-- Labels are shared in the same way after more of them were drawn. -/
theorem mono (shares : Shares sequence count held) {more : Nat} (fewer : count ≤ more) :
    Shares sequence more held := by
  refine ⟨shares.nodup, shares.disjoint, ?_⟩
  intro holder label member
  obtain ⟨number, below, same⟩ := shares.drawn holder label member
  exact ⟨number, Nat.lt_of_lt_of_le below fewer, same⟩

/-- The next label is in nobody's hands while all labels are different. -/
theorem fresh (shares : Shares sequence count held)
    (distinct : Set.InjOn sequence (Set.Iic count)) (holder : ι) :
    sequence count ∉ held holder := by
  intro member
  obtain ⟨number, below, same⟩ := shares.drawn holder _ member
  have equal : count = number :=
    distinct (Set.mem_Iic.2 (Nat.le_refl count)) (Set.mem_Iic.2 (Nat.le_of_lt below)) same
  omega

/-- A holder may exchange its labels for others that nobody else has. -/
theorem update [DecidableEq ι] (shares : Shares sequence count held) {holder : ι}
    {labels : List Label} (nodup : labels.Nodup)
    (disjoint : ∀ other, other ≠ holder → labels.Disjoint (held other))
    (drawn : ∀ label ∈ labels, ∃ number < count, label = sequence number) :
    Shares sequence count (Function.update held holder labels) := by
  refine ⟨?_, ?_, ?_⟩
  · refine (Function.forall_update_iff held (p := fun _ labels => labels.Nodup)).2 ⟨nodup, ?_⟩
    exact fun other _ => shares.nodup other
  · intro left right different
    rcases eq_or_ne left holder with rfl | leftOther
    · rw [Function.update_self, Function.update_of_ne different.symm]
      exact disjoint right different.symm
    · rcases eq_or_ne right holder with rfl | rightOther
      · rw [Function.update_self, Function.update_of_ne leftOther]
        exact List.disjoint_symm (disjoint left leftOther)
      · rw [Function.update_of_ne leftOther, Function.update_of_ne rightOther]
        exact shares.disjoint left right different
  · refine (Function.forall_update_iff held
      (p := fun _ labels => ∀ label ∈ labels, ∃ number < count, label = sequence number)).2 ?_
    exact ⟨drawn, fun other _ => shares.drawn other⟩

/-- A holder may drop its labels. -/
theorem drop [DecidableEq ι] (shares : Shares sequence count held) (holder : ι) :
    Shares sequence count (Function.update held holder []) :=
  shares.update List.nodup_nil (fun _ _ => List.disjoint_nil_left _) (List.forall_mem_nil _)

/-- A holder may draw the next label. -/
theorem draw [DecidableEq ι] (shares : Shares sequence count held)
    (distinct : Set.InjOn sequence (Set.Iic count)) (holder : ι) :
    Shares sequence (count + 1)
      (Function.update held holder (held holder ++ [sequence count])) := by
  have fresh := shares.fresh distinct
  refine (shares.mono (Nat.le_succ count)).update ?_ ?_ ?_
  · refine List.nodup_append'.2 ⟨shares.nodup holder, List.nodup_singleton _, ?_⟩
    exact List.disjoint_singleton.2 (fresh holder)
  · intro other different
    refine List.disjoint_append_left.2 ⟨shares.disjoint _ _ different.symm, ?_⟩
    exact List.singleton_disjoint.2 (fresh other)
  · refine List.forall_mem_append.2 ⟨(shares.mono (Nat.le_succ count)).drawn holder, ?_⟩
    exact List.forall_mem_singleton.2 ⟨count, Nat.lt_succ_self count, rfl⟩

/-- A holder may hand some of its labels to another one and drop the rest. -/
theorem handOver [DecidableEq ι] (shares : Shares sequence count held) {giver taker : ι}
    (different : taker ≠ giver) {labels : List Label} (nodup : labels.Nodup)
    (own : labels ⊆ held giver) :
    Shares sequence count
      (Function.update (Function.update held giver []) taker (held taker ++ labels)) := by
  refine (shares.drop giver).update ?_ ?_ ?_
  · refine List.nodup_append'.2 ⟨shares.nodup taker, nodup, ?_⟩
    exact fun label ofTaker handed => shares.disjoint _ _ different ofTaker (own handed)
  · intro other notTaker label member
    rcases eq_or_ne other giver with rfl | notGiver
    · simp
    · rw [Function.update_of_ne notGiver]
      rcases List.mem_append.1 member with ofTaker | handed
      · exact shares.disjoint _ _ notTaker.symm ofTaker
      · exact shares.disjoint _ _ notGiver.symm (own handed)
  · refine List.forall_mem_append.2 ⟨shares.drawn taker, ?_⟩
    exact fun label handed => shares.drawn giver label (own handed)

end Shares

/-- Labels that are drawn one after another from handles to one sequence are different until they
start again. -/
theorem SharedLabels.label_injOn (labels : SharedLabels) :
    Set.InjOn labels.label (Set.Iio (2 ^ 32)) := by
  intro first firstIn second secondIn same
  have offsets : UInt32.ofNat first = UInt32.ofNat second :=
    UInt32.add_right_inj labels.next |>.1 (congrArg Label.number same)
  rw [← UInt32.toNat_ofNat_of_lt' firstIn, offsets, UInt32.toNat_ofNat_of_lt' secondIn]

/-- As many labels as the sequence has are drawn from handles before one of them comes again. -/
theorem SharedLabels.distinct {labels : SharedLabels} {count : Nat} (few : count ≤ 2 ^ 32) :
    LabelSource.Distinct labels count := by
  have isDrawn {number : Nat} {left after : SharedLabels} {label : Label}
      (drawn : LabelSource.drawn? labels number = some left)
      (found : LabelSource.draw? left = some (label, after)) : labels.label number = label := by
    rw [drawn?_eq, Option.some.injEq] at drawn
    subst drawn
    have next : (labels.skip number).draw = (label, after) := Option.some.inj found
    rw [draw_skip] at next
    exact congrArg Prod.fst next
  intro first second _ _ _ _ label firstBelow secondBelow drawn found drawn' found'
  refine labels.label_injOn (Nat.lt_of_lt_of_le firstBelow few)
    (Nat.lt_of_lt_of_le secondBelow few) ?_
  rw [isDrawn drawn found, isDrawn drawn' found']

namespace Supply

variable {labels : List Label} {count : Nat}

/-- A supply hands out no more labels than it has. -/
theorem le_length {after : Supply}
    (drawn : LabelSource.drawn? (⟨labels⟩ : Supply) count = some after) :
    count ≤ labels.length := by
  rw [drawn?_eq] at drawn
  exact (Option.ite_none_right_eq_some.1 drawn).1

/-- The labels that a supply hands out are its first ones. -/
theorem map_label (enough : count ≤ labels.length) :
    (List.range' 0 count).map (LabelSource.numbering (⟨labels⟩ : Supply)).label =
      labels.take count := by
  refine List.ext_getElem (by simp [enough]) ?_
  intro place inRange inTake
  have below : place < labels.length :=
    Nat.lt_of_lt_of_le inTake (List.length_take_le' count labels)
  simp [label_eq below]

/-- The labels of a supply are different if they were so in the list. -/
theorem label_injOn (nodup : labels.Nodup) (enough : count ≤ labels.length) :
    Set.InjOn (LabelSource.numbering (⟨labels⟩ : Supply)).label (Set.Ico 0 count) := by
  intro first firstIn second secondIn same
  rw [label_eq (Nat.lt_of_lt_of_le firstIn.2 enough),
    label_eq (Nat.lt_of_lt_of_le secondIn.2 enough)] at same
  exact nodup.getElem_inj_iff.1 same

end Supply

/-- A call that ends defines some of the labels that it has drawn. -/
theorem Task.labelsOf_outcome (task : Task)
    (fits : task.source.utf8ByteSize ≤ Span.maxOffset) (nodup : task.received.Nodup) :
    (labelsOf task.outcome).Nodup ∧ labelsOf task.outcome ⊆ task.received := by
  cases outcome : task.outcome with
  | error failure => exact ⟨List.nodup_nil, List.nil_subset _⟩
  | ok compiled =>
      obtain ⟨count, stands, perm⟩ := definedLabels_of_compile _ fits
        (LabelSource.numbering_stands (⟨task.received⟩ : Supply)) (Prod.ext outcome rfl)
      have drawn : LabelSource.drawn? (⟨task.received⟩ : Supply) (0 + count) = some _ := stands
      rw [Nat.zero_add] at drawn perm
      have enough := Supply.le_length drawn
      have perm := perm (Supply.label_injOn nodup enough)
      rw [Supply.map_label enough] at perm
      exact ⟨perm.nodup_iff.2 (nodup.sublist (List.take_sublist ..)),
        fun label member => List.mem_of_mem_take (perm.mem_iff.1 member)⟩

namespace Workshop

open Function (update)

/-- Who has which labels: those of units that were yielded, and those that each call has drawn. -/
def held (workshop : Workshop) : Option Nat → List Label
  | none => workshop.outcomes.flatMap labelsOf
  | some compiler => ((workshop.tasks compiler).map Task.received).getD []

variable {workshop : Workshop} {compiler : Nat} {labels : SharedLabels}

/-- Whoever works on a call has the labels of that call. -/
theorem held_update (task : Option Task) :
    ({ workshop with labels, tasks := update workshop.tasks compiler task } : Workshop).held =
      update workshop.held (some compiler) ((task.map Task.received).getD []) := by
  funext holder
  cases holder with
  | none => rfl
  | some other =>
      rcases eq_or_ne other compiler with rfl | different
      · simp [held]
      · simp [held, different]

/-- A call that is over has left its labels to the unit that it yields. -/
theorem held_finish (outcome : Except Failure CompiledUnit) :
    ({ workshop with
        tasks := update workshop.tasks compiler none
        outcomes := workshop.outcomes ++ [outcome] } : Workshop).held =
      update (update workshop.held (some compiler) []) none
        (workshop.outcomes.flatMap labelsOf ++ labelsOf outcome) := by
  funext holder
  cases holder with
  | none => simp [held]
  | some other =>
      rcases eq_or_ne other compiler with rfl | different
      · simp [held]
      · simp [held, different]

/-- What holds of a workshop when a number of labels have been drawn from a sequence. -/
structure Orderly (origin : SharedLabels) (count : Nat) (workshop : Workshop) : Prop where
  next : workshop.labels.next = (origin.skip count).next
  shares : Shares origin.label count workshop.held
  fits : ∀ compiler, ∀ task ∈ workshop.tasks compiler,
    task.source.utf8ByteSize ≤ Span.maxOffset

variable {origin : SharedLabels} {count drawn : Nat} {first last : Workshop}

/-- The next label of the workshop is that of the sequence. -/
theorem Orderly.draw_eq (orderly : Orderly origin count workshop) :
    workshop.labels.draw.1 = origin.label count ∧
      workshop.labels.draw.2.next = (origin.skip (count + 1)).next := by
  have label : workshop.labels.draw.1 = (origin.skip count).draw.1 :=
    congrArg Label.mk orderly.next
  have next : workshop.labels.draw.2.next = (origin.skip count).draw.2.next :=
    congrArg (· + 1) orderly.next
  rw [SharedLabels.draw_skip] at label next
  exact ⟨label, next⟩

/-- A task whose source fits may take the place of another one. -/
theorem Orderly.fits_update (orderly : Orderly origin count workshop) (compiler : Nat)
    {busy : Option Task} (fits : ∀ task ∈ busy, task.source.utf8ByteSize ≤ Span.maxOffset) :
    ∀ other, ∀ task ∈ update workshop.tasks compiler busy other,
      task.source.utf8ByteSize ≤ Span.maxOffset := by
  refine (Function.forall_update_iff workshop.tasks
    (p := fun _ busy => ∀ task ∈ busy, task.source.utf8ByteSize ≤ Span.maxOffset)).2 ?_
  exact ⟨fits, fun other _ => orderly.fits other⟩

/-- A step keeps the labels of calls and units apart. -/
theorem Orderly.step (orderly : Orderly origin count workshop)
    (step : Step drawn workshop last) (bound : count + drawn ≤ 2 ^ 32) :
    Orderly origin (count + drawn) last := by
  cases step with
  | @start _ compiler unit source idle fits =>
      refine ⟨orderly.next, ?_, ?_⟩
      · rw [held_update]
        exact orderly.shares.drop _
      · refine orderly.fits_update compiler ?_
        rintro _ ⟨⟩
        exact fits
  | @draw _ compiler task busy wants =>
      obtain ⟨label, next⟩ := orderly.draw_eq
      have distinct : Set.InjOn origin.label (Set.Iic count) :=
        origin.label_injOn.mono (Set.Iic_subset_Iio.2 bound)
      have holds : workshop.held (some compiler) = task.received := by simp [held, busy]
      refine ⟨next, ?_, ?_⟩
      · rw [held_update, label, Option.map_some, Option.getD_some, ← holds]
        exact orderly.shares.draw distinct (some compiler)
      · refine orderly.fits_update compiler ?_
        rintro _ ⟨⟩
        exact orderly.fits compiler task busy
  | @finish _ compiler task busy ends =>
      have holds : workshop.held (some compiler) = task.received := by simp [held, busy]
      obtain ⟨nodup, own⟩ := task.labelsOf_outcome (orderly.fits compiler task busy)
        (holds ▸ orderly.shares.nodup (some compiler))
      refine ⟨orderly.next, ?_, ?_⟩
      · rw [held_finish]
        exact orderly.shares.handOver (Option.some_ne_none compiler).symm nodup (holds ▸ own)
      · exact orderly.fits_update compiler nofun
  | clone => exact ⟨orderly.next, orderly.shares, orderly.fits⟩

/-- A workshop where nobody has begun is in order. -/
theorem Orderly.start (idle : ∀ compiler, workshop.tasks compiler = none)
    (blank : workshop.outcomes = []) : Orderly workshop.labels 0 workshop := by
  have empty : ∀ holder, workshop.held holder = [] := by
    intro holder
    cases holder with
    | none => simp [held, blank]
    | some compiler => simp [held, idle]
  refine ⟨by rw [SharedLabels.skip_zero], ⟨?_, ?_, ?_⟩, ?_⟩
  · intro holder
    rw [empty]
    exact List.nodup_nil
  · intro left right different
    rw [empty]
    exact List.disjoint_nil_left _
  · intro holder
    rw [empty]
    exact List.forall_mem_nil _
  · intro compiler
    rw [idle]
    exact nofun

/-- Steps of all compilers in any order keep the labels of calls and units apart, as long as the
sequence does not start again. -/
theorem Orderly.runs (orderly : Orderly origin 0 first) (runs : Runs count first last)
    (bound : count ≤ 2 ^ 32) : Orderly origin count last := by
  induction runs with
  | stay => exact orderly
  | step prior step inductionHypothesis =>
      exact (inductionHypothesis orderly (Nat.le_of_add_right_le bound)).step step bound

end Workshop

/-! ## Programs -/

/-- No label is defined twice in all units of a program together, whether its units are compiled one
after another with a counter, which may run out, or by compilers with handles to the same labels
that take turns at any moment, as long as the labels do not start again. Units may fail. -/
theorem labels_unique :
    (∀ (compiler : Compiler LabelCounter) (units : List (String × String)),
      (∀ unit ∈ units, unit.2.utf8ByteSize ≤ Span.maxOffset) →
      ((compiler.compileAll units).1.flatMap labelsOf).Nodup) ∧
    ∀ {count : Nat} {first last : Workshop}, (∀ compiler, first.tasks compiler = none) →
      first.outcomes = [] → first.Runs count last → count ≤ 2 ^ 32 →
      (last.outcomes.flatMap labelsOf).Nodup := by
  constructor
  · intro compiler units fits
    exact (compiler.labels_nodup units fits).1
  · intro count first last idle blank runs bound
    exact ((Workshop.Orderly.start idle blank).runs runs bound).shares.nodup none

/-- A counter that runs out in the fourth unit, after a unit that breaks off with two labels drawn,
and two compilers that take turns while their labels pass the largest number. -/
theorem labels_unique_of_turns :
    ∃ loop bare : String,
      (∃ outcomes : List (Except Failure CompiledUnit),
        ((⟨⟨4294967289⟩⟩ : Compiler LabelCounter).compileAll
          [("A", loop), ("B", bare), ("A", loop), ("A", loop)]).1 = outcomes ∧
        outcomes.map labelsOf = [[⟨4294967289⟩, ⟨4294967290⟩], [],
          [⟨4294967293⟩, ⟨4294967294⟩], []] ∧
        outcomes[3]? = some (.error (.broken .labelsExhausted)) ∧
        (outcomes.flatMap labelsOf).Nodup) ∧
      ∃ last : Workshop,
        Workshop.Runs 4 ⟨⟨4294967295, 2⟩, fun _ => none, []⟩ last ∧
        last.outcomes.map labelsOf = [[⟨0⟩, ⟨1⟩], [⟨4294967295⟩, ⟨2⟩]] ∧
        (last.outcomes.flatMap labelsOf).Nodup := by
  let loop := "class A{function int f(){while(0){}return 1;}}"
  let bare := "class B{function int f(){while(0){}return}}"
  let first : Workshop := ⟨⟨4294967295, 2⟩, fun _ => none, []⟩
  have loopFits : loop.utf8ByteSize ≤ Span.maxOffset := by decide +kernel
  have bareFits : bare.utf8ByteSize ≤ Span.maxOffset := by decide +kernel
  have turns : ∃ last : Workshop, Workshop.Runs 4 first last ∧
      last.outcomes.map labelsOf = [[⟨0⟩, ⟨1⟩], [⟨4294967295⟩, ⟨2⟩]] := by
    refine ⟨_, .step (.step (.step (.step (.step (.step (.step (.step (.stay first)
      (@Workshop.Step.start _ 0 "A" loop rfl loopFits))
      (@Workshop.Step.start _ 1 "A" loop rfl loopFits))
      (@Workshop.Step.draw _ 0 _ rfl (by decide +kernel)))
      (@Workshop.Step.draw _ 1 _ rfl (by decide +kernel)))
      (@Workshop.Step.draw _ 1 _ rfl (by decide +kernel)))
      (@Workshop.Step.draw _ 0 _ rfl (by decide +kernel)))
      (@Workshop.Step.finish _ 1 _ rfl (by decide +kernel)))
      (@Workshop.Step.finish _ 0 _ rfl (by decide +kernel)), ?_⟩
    decide +kernel
  obtain ⟨last, runs, labels⟩ := turns
  refine ⟨loop, bare, ⟨_, rfl, by decide +kernel, by decide +kernel, ?_⟩,
    last, runs, labels, ?_⟩
  · refine labels_unique.1 _ _ ?_
    simp [loopFits, bareFits]
  · exact labels_unique.2 (fun _ => rfl) rfl runs (by decide)

end JackCompiler
