import JackCompiler.Proofs.Execution.Machine

/-!
# Runs of a program

The machine goes through the instructions of a program one after another, unless a jump takes it to
the definition of a label. A stretch of a program is followed for as long as every step starts
inside it, so that what happens in the stretch is apart from how control comes back to it later.
-/

namespace JackCompiler

/-- Where the machine is in a program, and its state there. -/
structure Configuration where
  position : Nat
  state : MachineState

/-- The position at which a program defines a label. -/
def target? (program : List Instruction) (label : Label) : Option Nat :=
  program.idxOf? (.label label)

/-- One step of the machine. There is none at the end of the program, at a return, and where
operands or labels are missing. -/
def step? (routines : Routines) (program : List Instruction) (here : Configuration) :
    Option Configuration :=
  match program[here.position]? with
  | none => none
  | some (.goto label) => (target? program label).map fun position => { here with position }
  | some (.ifGoto label) =>
      match here.state.stack with
      | [] => none
      | word :: stack =>
          if word = 0 then some ⟨here.position + 1, { here.state with stack }⟩
          else (target? program label).map fun position => ⟨position, { here.state with stack }⟩
  | some instruction =>
      (instruction.effect? routines here.state).map fun state => ⟨here.position + 1, state⟩

/-- Steps that each go to the next instruction. -/
inductive Proceeds (routines : Routines) (program : List Instruction) :
    Configuration → Configuration → Prop
  | stay (here : Configuration) : Proceeds routines program here here
  | step {here next there : Configuration} (move : step? routines program here = some next)
      (onwards : next.position = here.position + 1)
      (others : Proceeds routines program next there) :
      Proceeds routines program here there

/-- A number of steps that all start in the stretch between two positions. -/
inductive Travels (routines : Routines) (program : List Instruction) (low high : Nat) :
    Nat → Configuration → Configuration → Prop
  | stay (here : Configuration) : Travels routines program low high 0 here here
  | step {steps : Nat} {here next there : Configuration} (above : low ≤ here.position)
      (below : here.position < high) (move : step? routines program here = some next)
      (others : Travels routines program low high steps next there) :
      Travels routines program low high (steps + 1) here there

variable {routines : Routines} {program : List Instruction} {low high : Nat}
  {here middle there : Configuration}

namespace Travels

/-- Travels within a stretch go on after each other. -/
theorem trans {first second : Nat} (one : Travels routines program low high first here middle)
    (two : Travels routines program low high second middle there) :
    Travels routines program low high (first + second) here there := by
  induction one with
  | stay => rwa [Nat.zero_add]
  | step above below move _ inductionHypothesis =>
      rw [Nat.add_right_comm]
      exact .step above below move (inductionHypothesis two)

/-- A step from inside a stretch is a travel. -/
theorem single (above : low ≤ here.position) (below : here.position < high)
    (move : step? routines program here = some there) :
    Travels routines program low high 1 here there :=
  .step above below move (.stay there)

/-- What happens in a stretch also happens in a longer one. -/
theorem widen {steps lower higher : Nat}
    (travel : Travels routines program low high steps here there)
    (lowers : lower ≤ low) (highers : high ≤ higher) :
    Travels routines program lower higher steps here there := by
  induction travel with
  | stay here => exact .stay here
  | step above below move _ inductionHypothesis =>
      exact .step (Nat.le_trans lowers above) (Nat.lt_of_lt_of_le below highers) move
        inductionHypothesis

/-- A travel passes through somewhere after any smaller number of steps. -/
theorem shorten {first second : Nat}
    (travel : Travels routines program low high (first + second) here there) :
    ∃ middle, Travels routines program low high first here middle ∧
      Travels routines program low high second middle there := by
  induction first generalizing here with
  | zero =>
      rw [Nat.zero_add] at travel
      exact ⟨here, .stay here, travel⟩
  | succ first inductionHypothesis =>
      rw [Nat.add_right_comm] at travel
      obtain _ | ⟨above, below, move, others⟩ := travel
      obtain ⟨middle, one, two⟩ := inductionHypothesis others
      exact ⟨middle, .step above below move one, two⟩

/-- The machine has no choice. -/
theorem unique {steps : Nat} {left right : Configuration}
    (one : Travels routines program low high steps here left)
    (two : Travels routines program low high steps here right) : left = right := by
  induction one with
  | stay =>
      cases two
      rfl
  | step _ _ move _ inductionHypothesis =>
      obtain _ | ⟨_, _, moved, others⟩ := two
      rw [move, Option.some.injEq] at moved
      exact inductionHypothesis (moved ▸ others)

end Travels

/-- A stretch is left behind or comes to a halt. -/
def Stops (routines : Routines) (program : List Instruction) (low high : Nat)
    (here : Configuration) : Prop :=
  ∀ there, ¬Travels routines program low high 1 here there

/-- Nothing happens in a stretch after it is left or the machine halts. -/
theorem Stops.last {first second : Nat} {stop : Configuration}
    (travel : Travels routines program low high first here stop)
    (stops : Stops routines program low high stop)
    (other : Travels routines program low high second here there) : second ≤ first := by
  rcases Nat.lt_or_ge first second with longer | shorter
  · obtain ⟨rest, rfl⟩ := Nat.exists_eq_add_of_lt longer
    rw [Nat.add_assoc, Nat.add_comm rest 1] at other
    obtain ⟨middle, one, more⟩ := other.shorten
    cases one.unique travel
    obtain ⟨next, step, _⟩ := more.shorten
    exact absurd step (stops next)
  · exact shorter

/-- A stretch is left, or the machine halts in it, in no more than one way. -/
theorem Stops.unique {first second : Nat} {left right : Configuration}
    (toLeft : Travels routines program low high first here left)
    (leftStops : Stops routines program low high left)
    (toRight : Travels routines program low high second here right)
    (rightStops : Stops routines program low high right) : left = right := by
  have same : first = second :=
    Nat.le_antisymm (rightStops.last toRight toLeft) (leftStops.last toLeft toRight)
  subst same
  exact toLeft.unique toRight

/-- The machine stops where it leaves the stretch. -/
theorem stops_of_position (outside : high ≤ here.position) :
    Stops routines program low high here := by
  rintro there (_ | ⟨_, below, _, _⟩)
  omega

/-- The machine stops at a return. -/
theorem stops_of_return (found : program[here.position]? = some .return) :
    Stops routines program low high here := by
  rintro there (_ | ⟨_, _, move, _⟩)
  simp [step?, found, Instruction.effect?] at move

/-! ## Code inside a program -/

/-- Code stands at a position of a program. -/
def HoldsAt (program : List Instruction) (position : Nat) (code : List Instruction) : Prop :=
  ∃ before after, program = before ++ code ++ after ∧ before.length = position

namespace HoldsAt

variable {position : Nat} {first second : List Instruction} {instruction : Instruction}

/-- Where two parts stand in a program, the first one stands at the place of both. -/
theorem left (whole : HoldsAt program position (first ++ second)) :
    HoldsAt program position first := by
  obtain ⟨before, after, rfl, rfl⟩ := whole
  exact ⟨before, second ++ after, by simp, rfl⟩

/-- Where two parts stand in a program, the second one stands behind the first one. -/
theorem right (whole : HoldsAt program position (first ++ second)) :
    HoldsAt program (position + first.length) second := by
  obtain ⟨before, after, rfl, rfl⟩ := whole
  exact ⟨before ++ first, after, by simp, by simp⟩

/-- What is behind the first instruction stands one place further on. -/
theorem tail (whole : HoldsAt program position (instruction :: second)) :
    HoldsAt program (position + 1) second := by
  rw [← List.singleton_append] at whole
  exact whole.right

/-- The first instruction is the one at the place. -/
theorem getElem? (whole : HoldsAt program position (instruction :: second)) :
    program[position]? = some instruction := by
  obtain ⟨before, after, rfl, rfl⟩ := whole
  simp

/-- Code that goes on from every instruction to the next is done step by step. -/
theorem proceeds {code : List Instruction} {start final : MachineState}
    (whole : HoldsAt program position code) (done : perform? routines code start = some final) :
    Proceeds routines program ⟨position, start⟩ ⟨position + code.length, final⟩ := by
  induction code generalizing position start with
  | nil =>
      cases done
      exact .stay _
  | cons instruction others inductionHypothesis =>
      obtain ⟨next, effect, rest⟩ := Option.bind_eq_some_iff.1 done
      have move : step? routines program ⟨position, start⟩ = some ⟨position + 1, next⟩ := by
        unfold step?
        rw [whole.getElem?]
        cases instruction with
        | goto | ifGoto => cases effect
        | _ =>
            simp only
            rw [effect]
            rfl
      have later := inductionHypothesis whole.tail rest
      rw [Nat.add_assoc, Nat.add_comm 1] at later
      exact .step move rfl later

end HoldsAt

/-- Steps that each go to the next instruction stay in the stretch between their ends. -/
theorem Proceeds.travels (proceeds : Proceeds routines program here there)
    (above : low ≤ here.position) (below : there.position ≤ high) :
    here.position ≤ there.position ∧
      Travels routines program low high (there.position - here.position) here there := by
  induction proceeds with
  | stay here =>
      rw [Nat.sub_self]
      exact ⟨Nat.le_refl _, .stay here⟩
  | step move onwards _ inductionHypothesis =>
      obtain ⟨ordered, travel⟩ := inductionHypothesis (by omega) below
      refine ⟨by omega, ?_⟩
      have whole := Travels.step above (by omega) move travel
      rw [onwards] at whole ordered
      rwa [← Nat.sub_add_comm ordered, Nat.add_sub_add_right] at whole

end JackCompiler
