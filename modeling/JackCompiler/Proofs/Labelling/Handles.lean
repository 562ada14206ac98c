import JackCompiler.Proofs.Labelling.Unique

/-!
# Runs of draws

A source of labels promises that no label is handed out twice. A counter keeps this promise for ever:
it refuses once its numbers are used up, and goes on refusing. Shared labels never refuse. Through
whichever handles they are drawn, they are the labels of one sequence in its order, which starts
again behind its last number; so their promise holds for 2^32 draws, and is broken by the next one.
-/

namespace JackCompiler

namespace LabelCounter

/-- The labels that a number of attempts to draw hand out. A refused attempt changes nothing. -/
def handedOut (counter : LabelCounter) : Nat → List Label
  | 0 => []
  | attempts + 1 =>
      match counter.draw? with
      | some (label, after) => label :: after.handedOut attempts
      | none => counter.handedOut attempts

/-- No label below the number of the counter is handed out any more. -/
theorem next_le_of_handedOut {counter : LabelCounter} {attempts : Nat} {label : Label}
    (member : label ∈ counter.handedOut attempts) :
    counter.next.toNat ≤ label.number.toNat := by
  induction attempts generalizing counter with
  | zero => cases member
  | succ attempts inductionHypothesis =>
      rw [handedOut] at member
      cases outcome : counter.draw? with
      | none =>
          rw [outcome] at member
          exact inductionHypothesis member
      | some result =>
          obtain ⟨drawn, after⟩ := result
          obtain ⟨number, next⟩ := next_of_draw? outcome
          rw [outcome] at member
          rcases List.mem_cons.1 member with rfl | later
          · rw [number]
          · have bound := inductionHypothesis later
            omega

/-- A counter hands out each label once, also when draws go on after it has refused. -/
theorem handedOut_nodup (counter : LabelCounter) (attempts : Nat) :
    (counter.handedOut attempts).Nodup := by
  induction attempts generalizing counter with
  | zero => exact List.nodup_nil
  | succ attempts inductionHypothesis =>
      rw [handedOut]
      cases outcome : counter.draw? with
      | none => exact inductionHypothesis counter
      | some result =>
          obtain ⟨drawn, after⟩ := result
          obtain ⟨number, next⟩ := next_of_draw? outcome
          apply List.nodup_cons.2
          constructor
          · intro again
            have bound := next_le_of_handedOut again
            rw [number] at bound
            omega
          · exact inductionHypothesis after

end LabelCounter

/-- What can be done with one of the handles to shared labels. -/
inductive HandleUse
  | draw (handle : Nat)
  /-- One more handle is made from it. -/
  | copy (handle : Nat)

namespace HandleUse

/-- How many labels are drawn. -/
def draws : List HandleUse → Nat
  | [] => 0
  | .draw _ :: uses => draws uses + 1
  | .copy _ :: uses => draws uses

theorem draws_replicate (count handle : Nat) :
    draws (List.replicate count (.draw handle)) = count := by
  induction count with
  | zero => rfl
  | succ count inductionHypothesis => rw [List.replicate_succ, draws, inductionHypothesis]

theorem draws_append (first second : List HandleUse) :
    draws (first ++ second) = draws first + draws second := by
  induction first with
  | nil => exact (Nat.zero_add _).symm
  | cons use uses inductionHypothesis =>
      cases use with
      | draw handle =>
          rw [List.cons_append, draws, draws, inductionHypothesis, Nat.add_right_comm]
      | copy handle => exact inductionHypothesis

end HandleUse

namespace SharedLabels

/-- The labels that are handed out while handles are used in some order, each with the handle that
it was drawn through. -/
def handedOut (labels : SharedLabels) : List HandleUse → List (Nat × Label)
  | [] => []
  | .draw handle :: uses => (handle, labels.draw.1) :: labels.draw.2.handedOut uses
  | .copy _ :: uses => labels.addHandle.handedOut uses

theorem label_draw (labels : SharedLabels) (number : Nat) :
    labels.draw.2.label number = labels.label (number + 1) := by
  unfold label draw
  rw [UInt32.add_assoc, Nat.add_comm number 1, UInt32.ofNat_add]
  rfl

/-- Whatever the order in which handles are used, the labels come in the order of the sequence. -/
theorem map_handedOut (labels : SharedLabels) (uses : List HandleUse) :
    (labels.handedOut uses).map Prod.snd =
      (List.range (HandleUse.draws uses)).map labels.label := by
  induction uses generalizing labels with
  | nil => rfl
  | cons use uses inductionHypothesis =>
      cases use with
      | copy handle => exact inductionHypothesis labels.addHandle
      | draw handle =>
          rw [handedOut, List.map_cons, inductionHypothesis, HandleUse.draws,
            List.range_succ_eq_map, List.map_cons, List.map_map]
          have first : labels.draw.1 = labels.label 0 :=
            congrArg Label.mk (UInt32.add_zero labels.next).symm
          have others : labels.draw.2.label = labels.label ∘ Nat.succ := by
            funext number
            exact labels.label_draw number
          rw [first, others]

/-- The sequence starts again after 2^32 labels. -/
theorem label_wraps (labels : SharedLabels) : labels.label (2 ^ 32) = labels.label 0 := rfl

/-- The labels drawn through the handles are different exactly as long as there are 2^32 of them
or fewer. -/
theorem handedOut_nodup_iff (labels : SharedLabels) (uses : List HandleUse) :
    ((labels.handedOut uses).map Prod.snd).Nodup ↔ HandleUse.draws uses ≤ 2 ^ 32 := by
  rw [map_handedOut]
  constructor
  · intro nodup
    by_contra many
    have first : 0 < HandleUse.draws uses := by omega
    have again : 2 ^ 32 < HandleUse.draws uses := by omega
    have same := List.inj_on_of_nodup_map nodup (List.mem_range.2 again) (List.mem_range.2 first)
      labels.label_wraps
    cases same
  · intro few
    apply List.Nodup.map_on _ List.nodup_range
    intro left leftIn right rightIn same
    exact labels.label_injOn (Nat.lt_of_lt_of_le (List.mem_range.1 leftIn) few)
      (Nat.lt_of_lt_of_le (List.mem_range.1 rightIn) few) same

end SharedLabels

/-- A counter never hands out a label twice, and shared labels do not as long as no more than 2^32
are drawn, through any handles in any order. One more is a repetition. -/
theorem draws_distinct (counter : LabelCounter) (attempts : Nat) (labels : SharedLabels)
    (uses : List HandleUse) :
    (counter.handedOut attempts).Nodup ∧
      (((labels.handedOut uses).map Prod.snd).Nodup ↔ HandleUse.draws uses ≤ 2 ^ 32) :=
  ⟨counter.handedOut_nodup attempts, labels.handedOut_nodup_iff uses⟩

/-- Two handles are enough for a repetition: one draws all numbers there are, and the other one is
handed one of them again. -/
theorem draws_repeat :
    ¬ ((SharedLabels.handedOut {} (.copy 0 :: List.replicate (2 ^ 32) (.draw 0) ++
        [.draw 1])).map Prod.snd).Nodup := by
  have draws : ∀ count,
      HandleUse.draws (.copy 0 :: List.replicate count (.draw 0) ++ [.draw 1]) = count + 1 := by
    intro count
    rw [HandleUse.draws_append]
    show HandleUse.draws (List.replicate count (.draw 0)) + 1 = count + 1
    rw [HandleUse.draws_replicate]
  rw [SharedLabels.handedOut_nodup_iff, draws]
  exact Nat.not_succ_le_self (2 ^ 32)

end JackCompiler
