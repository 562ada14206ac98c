import JackCompiler.Proofs.Prediction.Productions
import JackCompiler.Proofs.Prediction.Trees

/-!
# Prefixes of classes

Terminals that have been read without an error can always be completed to a class: with whatever
phrases meet the goals that are left. Which error comes of what stands behind them, if it is one of
grammar, cannot be avoided by any completion of that. So errors of grammar are found as early as
they can be.
-/

namespace JackCompiler

open Grammar

namespace Prediction

/-- Whether terminals are those of a class. -/
def IsClass (terminals : List Terminal) : Prop := ∃ tree : ClassDeclaration, tree.yield = terminals

/-- Whether terminals are some of those of a class, from the first on. -/
def Viable (terminals : List Terminal) : Prop := ∃ rest, IsClass (terminals ++ rest)

/-- What is in front of terminals that can be completed can be completed. -/
theorem Viable.of_append {terminals rest : List Terminal} (viable : Viable (terminals ++ rest)) :
    Viable terminals := by
  obtain ⟨others, isClass⟩ := viable
  exact ⟨rest ++ others, List.append_assoc terminals rest others ▸ isClass⟩

/-! ## Settling -/

/-- How goals settle the next terminal: those that need not read are passed over. -/
inductive Settles (names : Names) (next : Option Terminal) : List Goal → Reaction → Prop
  | pass {goal : Goal} {goals : List Goal} {reaction : Reaction} (passes : Phrase goal [])
      (settles : Settles names next goals reaction) : Settles names next (goal :: goals) reaction
  | read {goal : Goal} {goals others : List Goal} {terminal : Terminal} (names' : Names)
      (isNext : next = some terminal) (reads : Reads goal terminal others) :
      Settles names next (goal :: goals) (.read (others ++ goals) names')
  | refuse {goal : Goal} {goals : List Goal} {back : Nat} {error : ErrorKind}
      (refuses : Refuses names goal next back error) :
      Settles names next (goal :: goals) (.refuse back error)
  | trailing {terminal : Terminal} (isNext : next = some terminal) :
      Settles names next [] (.refuse 0 (.grammatical (.trailingInput terminal.kind)))
  | complete (ended : next = none) : Settles names next [] .leave

section Settling

variable {names names' : Names} {next : Option Terminal} {goals others : List Goal}
  {terminal : Terminal} {phrase : List Terminal}

/-- Goals settle as they are computed to. -/
theorem settles_settle (goals : List Goal) : Settles names next goals (settle names next goals) := by
  induction goals with
  | nil =>
      cases next with
      | none => exact .complete rfl
      | some terminal => exact .trailing rfl
  | cons goal goals inductionHypothesis =>
      have sound : (goal.react names next).Sound names goal next := sound_react goal
      rw [settle]
      cases reaction : goal.react names next with
      | leave =>
          rw [reaction] at sound
          refine .pass ?_ inductionHypothesis
          rcases sound with rfl | ⟨name, rfl⟩
          · exact ⟨.nil, rfl⟩
          · exact ⟨.name name, rfl⟩
      | read others names' =>
          rw [reaction] at sound
          obtain ⟨terminal, isNext, reads⟩ := sound
          exact .read names' isNext reads
      | refuse back error =>
          rw [reaction] at sound
          exact .refuse sound

/-- Goals are met by the terminal that they read and what then meets the goals that are left. -/
theorem Settles.phrases (settles : Settles names (some terminal) goals (.read others names'))
    (behind : Phrases others phrase) : Phrases goals (terminal :: phrase) := by
  generalize same : Reaction.read others names' = reaction at settles
  induction settles with
  | pass passes _ inductionHypothesis => exact ⟨[], _, passes, inductionHypothesis same, rfl⟩
  | read names' isNext reads =>
      cases same
      cases isNext
      obtain ⟨first, rest, isFirst, isRest, rfl⟩ := phrases_append_iff.1 behind
      exact ⟨_, rest, phrase_of_reads reads isFirst, isRest, rfl⟩
  | refuse refuses => cases same
  | trailing isNext => cases same
  | complete ended => cases same

end Settling

/-! ## Terminals that have been read -/

/-- What is left and what is known of names once terminals have been read. -/
inductive Reaches : List Terminal → List Goal → Names → Prop
  | start : Reaches [] classGoals noNames
  | read {terminals : List Terminal} {terminal : Terminal} {goals others : List Goal}
      {names names' : Names} (reached : Reaches terminals goals names)
      (settles : settle names (some terminal) goals = .read others names') :
      Reaches (terminals ++ [terminal]) others names'

section Reached

variable {terminals rest phrase : List Terminal} {goals : List Goal} {names : Names}

/-- Before anything is read the goals are those of a class. -/
theorem Reaches.eq_classGoals (reached : Reaches [] goals names) : goals = classGoals := by
  generalize nothing : ([] : List Terminal) = terminals at reached
  cases reached with
  | start => rfl
  | read _ _ => simp at nothing

/-- What follows depends on the goals and names that are left. -/
theorem Reaches.fault?_append (reached : Reaches terminals goals names) (rest : List Terminal) :
    fault? (terminals ++ rest) = refusal? goals names terminals.length rest := by
  induction reached generalizing rest with
  | start => rfl
  | read _ settles inductionHypothesis =>
      rw [List.append_assoc, inductionHypothesis, List.singleton_append, refusal?, settles,
        List.length_append, List.length_singleton]

/-- With phrases that meet the goals that are left the terminals make up a class. -/
theorem Reaches.isClass (reached : Reaches terminals goals names) (behind : Phrases goals phrase) :
    IsClass (terminals ++ phrase) := by
  induction reached generalizing phrase with
  | start =>
      obtain ⟨_, _, ⟨word, isWord, rfl⟩, ⟨_, _, ⟨name, rfl⟩, others, rfl⟩, rfl⟩ := behind
      obtain ⟨_, body, rfl⟩ := phrases_mark_iff.1 others
      obtain ⟨groups, subroutines, rfl⟩ := phrases_singleton_iff.1 body
      cases word with
      | keyword word =>
          cases isWord
          exact ⟨⟨name, groups, subroutines⟩, by simp [ClassDeclaration.yield]⟩
      | _ => cases isWord
  | read _ settles inductionHypothesis =>
      -- With the terminal in front, what meets the goals behind it meets those before it.
      rw [List.append_assoc]
      exact inductionHypothesis ((settles ▸ settles_settle _).phrases behind)

/-- What has been read without an error can be completed. -/
theorem Reaches.viable (reached : Reaches terminals goals names) : Viable terminals := by
  obtain ⟨phrase, meets⟩ := exists_phrases goals
  exact ⟨phrase, reached.isClass meets⟩

/-- The first error comes up behind terminals that have been read. -/
theorem Reaches.exists_refuse {refusal : Refusal} (reached : Reaches terminals goals names)
    (foretold : refusal? goals names terminals.length rest = some refusal) :
    ∃ front behind goals names back, terminals ++ rest = front ++ behind ∧
      Reaches front goals names ∧ settle names behind.head? goals = .refuse back refusal.error ∧
      refusal.place = front.length - back := by
  induction rest generalizing terminals goals names with
  | nil =>
      rw [refusal?] at foretold
      cases settles : settle names none goals with
      | leave =>
          rw [settles] at foretold
          cases foretold
      | read others names' =>
          rw [settles] at foretold
          cases foretold
      | refuse back error =>
          rw [settles] at foretold
          cases foretold
          exact ⟨terminals, [], goals, names, back, rfl, reached, settles, rfl⟩
  | cons terminal others inductionHypothesis =>
      rw [refusal?] at foretold
      cases settles : settle names (some terminal) goals with
      | leave =>
          rw [settles] at foretold
          cases foretold
      | read left names' =>
          rw [settles] at foretold
          have further := reached.read settles
          rw [← List.singleton_append, ← List.append_assoc]
          refine inductionHypothesis further ?_
          rw [List.length_append]
          exact foretold
      | refuse back error =>
          rw [settles] at foretold
          cases foretold
          exact ⟨terminals, terminal :: others, goals, names, back, rfl, reached, settles, rfl⟩

/-- The first error of terminals is that of a goal that refuses what is behind others read before.
-/
theorem exists_reaches {refusal : Refusal} (foretold : fault? terminals = some refusal) :
    ∃ front behind goals names back, terminals = front ++ behind ∧
      Reaches front goals names ∧ settle names behind.head? goals = .refuse back refusal.error ∧
      refusal.place = front.length - back :=
  Reaches.start.exists_refuse foretold

end Reached

/-! ## Goals behind a terminal of their own

Two goals stand for what comes directly behind a terminal that was read: the target of an
assignment behind its word, and what follows a name. They are never left for later. -/

/-- Whether a goal can come first behind a terminal. -/
def Follows (last : Option Terminal) : Goal → Prop
  | .afterName name => last = some (.name name)
  | .target => last = some (.keyword .let)
  | _ => True

/-- Whether a goal can be left for later. -/
def Steady (goal : Goal) : Prop := ∀ last, Follows last goal

theorem not_steady_target : ¬Steady .target := fun steady => nomatch steady none

theorem not_steady_afterName {name : String} : ¬Steady (.afterName name) :=
  fun steady => nomatch steady none

/-- Whether goals can be left behind a terminal. -/
def Fresh (last : Option Terminal) : List Goal → Prop
  | [] => True
  | first :: others => Follows last first ∧ ∀ goal ∈ others, Steady goal

section Fresh

variable {last : Option Terminal} {goals others passed behind : List Goal} {goal : Goal}
  {terminal : Terminal}

/-- Steady goals are fresh behind whatever was read. -/
theorem fresh_of_steady (steady : ∀ goal ∈ goals, Steady goal) : Fresh last goals := by
  cases goals with
  | nil => trivial
  | cons first others =>
      obtain ⟨isSteady, steady⟩ := List.forall_mem_cons.1 steady
      exact ⟨isSteady last, steady⟩

/-- Fresh goals stay fresh in front of steady ones. -/
theorem Fresh.append (fresh : Fresh last goals) (steady : ∀ goal ∈ others, Steady goal) :
    Fresh last (goals ++ others) := by
  cases goals with
  | nil => exact fresh_of_steady steady
  | cons first goals => exact ⟨fresh.1, List.forall_mem_append.2 ⟨fresh.2, steady⟩⟩

/-- What a goal leaves can be left behind the terminal that it reads. -/
theorem fresh_of_reads (reads : Reads goal terminal goals) : Fresh (some terminal) goals := by
  induction reads with
  | name text => exact ⟨rfl, List.forall_mem_nil _⟩
  | assign => exact ⟨rfl, by simp [Steady, Follows]⟩
  | noGroup reads inductionHypothesis => exact inductionHypothesis
  | noLocals reads inductionHypothesis => exact inductionHypothesis
  | absent reads inductionHypothesis => exact inductionHypothesis
  | called reads inductionHypothesis => exact inductionHypothesis
  | result reads inductionHypothesis =>
      exact inductionHypothesis.append (by simp [Steady, Follows, Goal.mark])
  | firstArgument receiver reads inductionHypothesis =>
      exact inductionHypothesis.append (by simp [Steady, Follows])
  | _ =>
      exact fresh_of_steady
        (by simp [Steady, Follows, Goal.mark, Goal.expression, Goal.subroutine])

variable {names names' : Names} {next : Option Terminal} {back : Nat} {error : ErrorKind}
  {terminals : List Terminal}

/-- A production leaves goals that are fresh behind its terminal. -/
theorem Settles.fresh (settles : Settles names (some terminal) goals (.read others names'))
    (fresh : Fresh last goals) : Fresh (some terminal) others := by
  generalize same : Reaction.read others names' = reaction at settles
  induction settles with
  | pass passes _ inductionHypothesis => exact inductionHypothesis (fresh_of_steady fresh.2) same
  | read names' isNext reads =>
      cases same
      cases isNext
      exact (fresh_of_reads reads).append fresh.2
  | refuse refuses => cases same
  | trailing isNext => cases same
  | complete ended => cases same

/-- Goals that are reached are fresh behind the last terminal. -/
theorem Reaches.fresh (reached : Reaches terminals goals names) :
    Fresh terminals.getLast? goals := by
  induction reached with
  | start => exact fresh_of_steady (by simp [classGoals, Steady, Follows, Goal.mark])
  | read _ settles inductionHypothesis =>
      rw [List.getLast?_concat]
      exact (settles ▸ settles_settle _).fresh inductionHypothesis

/-- A goal that is not left for later is the first. -/
theorem Fresh.eq_nil (fresh : Fresh last (passed ++ goal :: behind)) (hasty : ¬Steady goal) :
    passed = [] ∧ Follows last goal := by
  cases passed with
  | nil => exact ⟨rfl, fresh.1⟩
  | cons first passed =>
      exact absurd (fresh.2 goal (List.mem_append_right _ List.mem_cons_self)) hasty

/-- A refusal is that of a goal, or all goals are met and there is more. -/
theorem Settles.exists_refuses (settles : Settles names next goals (.refuse back error)) :
    (∃ passed goal behind, goals = passed ++ goal :: behind ∧
      Refuses names goal next back error) ∨
    Phrases goals [] ∧ ∃ terminal : Terminal, next = some terminal ∧ back = 0 ∧
      error = .grammatical (.trailingInput terminal.kind) := by
  generalize same : Reaction.refuse back error = reaction at settles
  induction settles with
  | @pass goal goals _ passes _ inductionHypothesis =>
      rcases inductionHypothesis same with ⟨passed, refusing, behind, rfl, refuses⟩ | ⟨met, more⟩
      · exact .inl ⟨goal :: passed, refusing, behind, rfl, refuses⟩
      · exact .inr ⟨⟨[], [], passes, met, rfl⟩, more⟩
  | read names' isNext reads => cases same
  | @refuse goal goals _ _ refuses =>
      cases same
      exact .inl ⟨[], goal, goals, rfl, refuses⟩
  | @trailing terminal isNext =>
      cases same
      exact .inr ⟨rfl, terminal, isNext, rfl, rfl⟩
  | complete ended => cases same

end Fresh

end Prediction

end JackCompiler
