import JackCompiler.Proofs.Execution.Run
import JackCompiler.Proofs.Execution.Semantics
import JackCompiler.Proofs.Grammar.Unambiguous
import JackCompiler.Proofs.Recognition.ExpressionSound

/-!
# The code of expressions computes their values

The code of an expression goes on from every instruction to the next and leaves the value on top of
the words that were on the stack. Everything is stated about code that turns some topmost words into
others, whatever is below them, so the code of a part is not disturbed by operands that wait for it.
-/

namespace JackCompiler

open Grammar

/-- Code that replaces the topmost words of the stack and changes the memory. It may leave anything
in `pointer 1` and in `temp`. -/
def Turns (routines : Routines) (code : List Instruction) (start : List Word) (before : Memory)
    (final : List Word) (after : Memory) : Prop :=
  ∀ (stack : List Word) (that : Word) (temp : UInt16 → Word), ∃ that' temp',
    perform? routines code ⟨start ++ stack, before, that, temp⟩ =
      some ⟨final ++ stack, after, that', temp'⟩

namespace Turns

variable {routines : Routines} {first second : List Instruction} {start between final : List Word}
  {before middle after : Memory}

/-- No code turns no words. -/
theorem nil (words : List Word) (memory : Memory) : Turns routines [] words memory words memory :=
  fun _ that temp => ⟨that, temp, rfl⟩

/-- Code turns words by way of what its first part turns them into. -/
theorem trans (one : Turns routines first start before between middle)
    (two : Turns routines second between middle final after) :
    Turns routines (first ++ second) start before final after := by
  intro stack that temp
  obtain ⟨that, temp, done⟩ := one stack that temp
  obtain ⟨that, temp, doneNext⟩ := two stack that temp
  exact ⟨that, temp, by rw [perform?_append, done, Option.bind_some, doneNext]⟩

/-- Words below those that are replaced stay where they are. -/
theorem withBelow (turns : Turns routines first start before final after) (below : List Word) :
    Turns routines first (start ++ below) before (final ++ below) after := by
  intro stack that temp
  obtain ⟨that, temp, done⟩ := turns (below ++ stack) that temp
  exact ⟨that, temp, by rw [List.append_assoc, done, List.append_assoc]⟩

/-- Code that only pushes a word, above others. -/
theorem above {word : Word} (turns : Turns routines first [] before [word] after)
    (below : List Word) : Turns routines first below before (word :: below) after :=
  turns.withBelow below

end Turns

section Instructions

variable {routines : Routines} {memory : Memory}

/-- A constant is pushed. -/
theorem turns_constant (word : Word) :
    Turns routines [.push .constant word] [] memory [word] memory :=
  fun _ that temp => ⟨that, temp, rfl⟩

/-- The current object is pushed. -/
theorem turns_this :
    Turns routines [.push .pointer 0] [] memory [memory.frame.this] memory :=
  fun _ that temp => ⟨that, temp, rfl⟩

/-- A variable is pushed from where it lives. -/
theorem turns_variable {place : Variable} (holds : place.segment.HoldsVariables) :
    Turns routines [.push place.segment place.index] [] memory [memory.read place] memory := by
  intro stack that temp
  refine ⟨that, temp, ?_⟩
  obtain ⟨type, segment, index⟩ := place
  rcases holds with rfl | rfl | rfl | rfl <;> rfl

/-- A call takes its arguments, the last of them from the top of the stack. -/
theorem turns_call (name : String) {count : UInt16} {words : List Word}
    (counted : count.toNat = words.length) :
    Turns routines [.call name count] words.reverse memory
      [(routines.result name words memory.globals).1]
      ⟨memory.frame, (routines.result name words memory.globals).2⟩ := by
  intro stack that temp
  have enough : words.length ≤ (words.reverse ++ stack).length := by simp
  refine ⟨that, routines.scratch name words memory.globals temp, ?_⟩
  have taken : (words.reverse ++ stack).take words.length = words.reverse := by
    rw [← List.length_reverse, List.take_left]
  have dropped : (words.reverse ++ stack).drop words.length = stack := by
    rw [← List.length_reverse, List.drop_left]
  simp only [perform?, Instruction.effect?, MachineState.call?, counted, if_pos enough, taken,
    dropped, List.reverse_reverse, Option.bind_some, List.singleton_append]

/-- The instruction of a binary operator turns two operands into what is computed of them. -/
theorem turns_binary (operator : BinaryOperator) (left right : Word) :
    Turns routines [operator.instruction] [right, left] memory
      [(operator.compute routines left right memory.globals).1]
      ⟨memory.frame, (operator.compute routines left right memory.globals).2⟩ := by
  have call (name : String) : Turns routines [.call name 2] [left, right].reverse memory
      [(routines.result name [left, right] memory.globals).1]
      ⟨memory.frame, (routines.result name [left, right] memory.globals).2⟩ :=
    turns_call name rfl
  cases operator with
  | mul => exact call Library.multiply
  | div => exact call Library.divide
  | _ => exact fun _ that temp => ⟨that, temp, rfl⟩

/-- The instruction of a unary operator turns an operand into what is computed of it. -/
theorem turns_unary (operator : UnaryOperator) (word : Word) :
    Turns routines [operator.instruction] [word] memory [operator.compute word] memory := by
  cases operator <;> exact fun _ that temp => ⟨that, temp, rfl⟩

/-- The instructions of a constant push its value. -/
theorem turns_keyword (value : KeywordConstant) :
    Turns routines value.instructions [] memory [value.value memory.frame] memory := by
  cases value <;> exact fun _ that temp => ⟨that, temp, rfl⟩

/-- The address of an array element gives way to the element. -/
theorem turns_element (base offset : Word) :
    Turns routines [.command .add, .pop .pointer 1, .push .that 0] [offset, base] memory
      [memory.globals.heap (base + offset)] memory := by
  intro stack that temp
  refine ⟨base + offset, temp, ?_⟩
  simp [perform?, Instruction.effect?, StackCommand.result?, MachineState.store?,
    MachineState.load?, MachineState.push]

/-- Characters are appended to the string on the stack, one call after another. -/
theorem turns_characters (characters : List UInt8) (word : Word) :
    Turns routines (characters.flatMap Code.appendCharacter) [word] memory
      [(characters.foldl (fun made character =>
        routines.result Library.appendCharacter [made.1, character.toUInt16] made.2)
          (word, memory.globals)).1]
      ⟨memory.frame, (characters.foldl (fun made character =>
        routines.result Library.appendCharacter [made.1, character.toUInt16] made.2)
          (word, memory.globals)).2⟩ := by
  induction characters generalizing word memory with
  | nil => exact .nil _ _
  | cons character others inductionHypothesis =>
      have appended : Turns routines [.call Library.appendCharacter 2]
          [word, character.toUInt16].reverse memory _ _ := turns_call _ rfl
      have one := ((turns_constant character.toUInt16).above [word]).trans appended
      exact one.trans (inductionHypothesis _)

/-- The code of a string constant pushes the string that the library makes of its characters. -/
theorem turns_string (contents : String) :
    Turns routines (stringCode contents) [] memory
      [(stringValue routines contents memory.globals).1]
      ⟨memory.frame, (stringValue routines contents memory.globals).2⟩ := by
  have made : Turns routines [.call Library.newString 1]
      [UInt16.ofNat contents.utf8ByteSize].reverse memory _ _ := turns_call _ rfl
  exact ((turns_constant _).trans made).trans (turns_characters _ _)

end Instructions

/-! ## Expressions -/

/-- Names stand for what variables can be kept in. -/
def Environment.Placed (environment : Environment) : Prop :=
  ∀ name place, environment.place? name = some place → place.segment.HoldsVariables

section Expressions

variable {routines : Routines} {environment : Environment} {frame : Frame}

/-- A name that is demanded to stand for a variable is pushed by its code. -/
theorem turns_load (placed : environment.Placed) {name : String} {memory : Memory}
    (met : Demand.Met environment (.visible name)) :
    Turns routines (environment.load name) [] memory [environment.read memory name] memory := by
  obtain ⟨place, found⟩ := Option.isSome_iff_exists.1 met
  unfold Environment.load Environment.read
  rw [found]
  exact turns_variable (placed name place found)

/-- There are as many words as arguments. -/
theorem Grammar.Arguments.length_eval (tree : Arguments) (globals : Globals) :
    (tree.eval routines environment frame globals).1.length = tree.count := by
  cases tree with
  | nil => rw [Arguments.eval, Arguments.count, List.length_nil]
  | cons first others =>
      rw [Arguments.eval, Arguments.count, ← others.length_eval]
      rfl

mutual

/-- The code of an expression pushes its value. -/
theorem Grammar.Expression.turns (placed : environment.Placed) (tree : Expression)
    (met : ∀ demand ∈ tree.demands environment, demand.Met environment) (globals : Globals) :
    Turns routines (tree.code environment) [] ⟨frame, globals⟩
      [(tree.eval routines environment frame globals).1]
      ⟨frame, (tree.eval routines environment frame globals).2⟩ := by
  cases tree with
  | mk first others =>
      obtain ⟨metFirst, metOthers⟩ := List.forall_mem_append.1 met
      exact (first.turns placed metFirst globals).trans (others.turns placed metOthers _ _)

/-- The code of operands joins them to the word on the stack. -/
theorem Grammar.Operands.turns (placed : environment.Placed) (tree : Operands)
    (met : ∀ demand ∈ tree.demands environment, demand.Met environment) (word : Word)
    (globals : Globals) :
    Turns routines (tree.code environment) [word] ⟨frame, globals⟩
      [(tree.eval routines environment frame word globals).1]
      ⟨frame, (tree.eval routines environment frame word globals).2⟩ := by
  cases tree with
  | nil => exact .nil _ _
  | cons operator operand others =>
      obtain ⟨metOperand, metOthers⟩ := List.forall_mem_append.1 met
      have right := (operand.turns placed metOperand globals).above [word]
      have joined := right.trans (turns_binary operator word _)
      exact joined.trans (others.turns placed metOthers _ _)

/-- The code of a term pushes its value. -/
theorem Grammar.Term.turns (placed : environment.Placed) (tree : Term)
    (met : ∀ demand ∈ tree.demands environment, demand.Met environment) (globals : Globals) :
    Turns routines (tree.code environment) [] ⟨frame, globals⟩
      [(tree.eval routines environment frame globals).1]
      ⟨frame, (tree.eval routines environment frame globals).2⟩ := by
  cases tree with
  | integer value => exact turns_constant value
  | string contents => exact turns_string contents
  | constant value => exact turns_keyword value
  | name text => exact turns_load placed (met _ List.mem_cons_self)
  | element array index =>
      obtain ⟨visible, metIndex⟩ := List.forall_mem_cons.1 met
      have base : Turns routines (environment.load array) [] ⟨frame, globals⟩
          [environment.read ⟨frame, globals⟩ array] ⟨frame, globals⟩ := turns_load placed visible
      have offset := (index.turns placed metIndex globals).above
        [environment.read ⟨frame, globals⟩ array]
      exact (base.trans offset).trans (turns_element _ _)
  | call call => exact call.turns placed met globals
  | group inner => exact inner.turns placed met globals
  | unary operator operand =>
      exact (operand.turns placed met globals).trans (turns_unary operator _)

/-- The code of a call pushes what the routine returns for its arguments. -/
theorem Grammar.Call.turns (placed : environment.Placed) (tree : Call)
    (met : ∀ demand ∈ tree.demands environment, demand.Met environment) (globals : Globals) :
    Turns routines (tree.code environment) [] ⟨frame, globals⟩
      [(tree.eval routines environment frame globals).1]
      ⟨frame, (tree.eval routines environment frame globals).2⟩ := by
  cases tree with
  | own subroutine arguments =>
      obtain ⟨metArguments, countable⟩ := List.forall_mem_append.1 met
      have this : Turns routines [.push .pointer 0] [] ⟨frame, globals⟩ [frame.this]
          ⟨frame, globals⟩ := turns_this
      have passed := this.trans ((arguments.turns placed metArguments globals).withBelow [frame.this])
      rw [← List.reverse_cons] at passed
      refine passed.trans (turns_call _ ?_)
      rw [toNat_count (countable _ List.mem_cons_self), List.length_cons, arguments.length_eval]
  | qualified owner subroutine arguments =>
      obtain ⟨metArguments, countable⟩ := List.forall_mem_append.1 met
      have countable := countable _ List.mem_cons_self
      rw [Call.code, Call.eval]
      cases found : environment.place? owner with
      | some receiver =>
          have object : Turns routines [.push receiver.segment receiver.index] []
              ⟨frame, globals⟩ [Memory.read ⟨frame, globals⟩ receiver] ⟨frame, globals⟩ :=
            turns_variable (placed owner receiver found)
          have passed := object.trans ((arguments.turns placed metArguments globals).withBelow
            [Memory.read ⟨frame, globals⟩ receiver])
          rw [← List.reverse_cons] at passed
          refine passed.trans (turns_call _ ?_)
          rw [found, Option.isSome_some, if_pos rfl] at countable
          rw [toNat_count countable, List.length_cons, arguments.length_eval]
      | none =>
          refine (arguments.turns placed metArguments globals).trans (turns_call _ ?_)
          rw [found, Option.isSome_none, if_neg Bool.false_ne_true, Nat.add_zero] at countable
          rw [toNat_count countable, arguments.length_eval]

/-- The code of arguments pushes their values, the last one on top. -/
theorem Grammar.Arguments.turns (placed : environment.Placed) (tree : Arguments)
    (met : ∀ demand ∈ tree.demands environment, demand.Met environment) (globals : Globals) :
    Turns routines (tree.code environment) [] ⟨frame, globals⟩
      (tree.eval routines environment frame globals).1.reverse
      ⟨frame, (tree.eval routines environment frame globals).2⟩ := by
  cases tree with
  | nil => exact .nil _ _
  | cons first others =>
      obtain ⟨metFirst, metOthers⟩ := List.forall_mem_append.1 met
      rw [Arguments.eval, List.reverse_cons]
      exact (first.turns placed metFirst globals).trans ((others.turns placed metOthers _).withBelow [_])

end

end Expressions

/-! ## Compiled expressions -/

/-- The tables of a pass keep variables where variables can be kept. -/
theorem PassState.placed {σ : Type} (state : PassState σ) : state.environment.Placed := by
  intro name place found
  simp only [PassState.environment, Scope.resolve?] at found
  split at found
  · next symbol _ =>
      cases found
      cases stored : symbol.storage <;>
        simp [Symbol.toVariable, stored, StorageClass.segment, Segment.HoldsVariables]
  · obtain ⟨symbol, _, rfl⟩ := Option.map_eq_some_iff.1 found
    cases stored : symbol.storage <;>
      simp [Symbol.toVariable, stored, StorageClass.segment, Segment.HoldsVariables]

/-- The terminals of an expression have one tree. -/
theorem Grammar.Expression.yield_injective {left right : Expression}
    (same : left.yield = right.yield) : left = right := by
  have ends : EndsExpression (nextKind? []) := ⟨rfl, rfl⟩
  exact (left.unique right ends ends (by rw [same])).1

/-- Wherever the code of a compiled expression stands in a program, the machine runs straight
through it and pushes the value of the expression. What it has below on the stack and in its frame
is as before, and the globals are as the evaluation of the expression leaves them. -/
theorem expression_computes {σ : Type} {context : PassContext} {before after : PassState σ}
    {code : Code} (legible : before.stream.Legible context.source)
    (finished : Pass.expression.run context before = .done code after) :
    ∃ tree : Expression, before.Reads context.source tree.yield after ∧
      (∀ other : Expression, before.Reads context.source other.yield after → other = tree) ∧
      ∀ (routines : Routines) (lead trail : List Instruction) (start : MachineState),
        ∃ (value : Word) (globals : Globals) (that : Word) (temp : UInt16 → Word),
          tree.eval routines before.environment start.memory.frame start.memory.globals =
            (value, globals) ∧
          Proceeds routines (lead ++ code.toList ++ trail) ⟨lead.length, start⟩
            ⟨lead.length + code.toList.length,
              ⟨value :: start.stack, ⟨start.memory.frame, globals⟩, that, temp⟩⟩ := by
  obtain ⟨tree, parsed⟩ := Pass.wholeExpression_of_done ⟨legible, rfl⟩ finished
  refine ⟨tree, parsed.reads, ?_, ?_⟩
  · intro other read
    exact Expression.yield_injective (read.stream.terminals_unique parsed.reads.stream)
  · intro routines lead trail start
    have turns : Turns routines (tree.code before.environment) [] start.memory _ _ :=
      tree.turns before.placed parsed.met start.memory.globals
    obtain ⟨that, temp, done⟩ := turns start.stack start.that start.temp
    rw [← parsed.code] at done
    have holds : HoldsAt (lead ++ code.toList ++ trail) lead.length code.toList :=
      ⟨lead, trail, rfl, rfl⟩
    exact ⟨_, _, that, temp, rfl, holds.proceeds done⟩

/-- The code of a difference that is multiplied. -/
theorem expression_computes_of_product :
    ∃ (context : PassContext) (before after : PassState Unit) (tree : Expression),
      before.stream.Legible context.source ∧
      Pass.expression.run context before = .done (.ofList [.push .constant 1, .push .constant 2,
        .command .sub, .push .constant 3, .call Library.multiply 2]) after ∧
      before.Reads context.source tree.yield after ∧
      ∀ (routines : Routines) (lead trail : List Instruction) (start : MachineState),
        ∃ (value : Word) (globals : Globals) (that : Word) (temp : UInt16 → Word),
          tree.eval routines before.environment start.memory.frame start.memory.globals =
            (value, globals) ∧
          Proceeds routines (lead ++ [.push .constant 1, .push .constant 2, .command .sub,
              .push .constant 3, .call Library.multiply 2] ++ trail) ⟨lead.length, start⟩
            ⟨lead.length + 5,
              ⟨value :: start.stack, ⟨start.memory.frame, globals⟩, that, temp⟩⟩ := by
  let tokens : List Token := [⟨.integer 1, ⟨0, 1⟩⟩, ⟨.punctuation .minus, ⟨1, 1⟩⟩,
    ⟨.integer 2, ⟨2, 1⟩⟩, ⟨.punctuation .star, ⟨3, 1⟩⟩, ⟨.integer 3, ⟨4, 1⟩⟩]
  let context : PassContext := ⟨"1-2*3", 6⟩
  let before : PassState Unit := ⟨⟨[], tokens, 5⟩, (), .empty, "A"⟩
  have legible : before.stream.Legible context.source := by
    simp [TokenStream.Legible, before, tokens, Token.terminal?]
  obtain ⟨after, finished⟩ : ∃ after, Pass.expression.run context before = .done (.ofList
      [.push .constant 1, .push .constant 2, .command .sub, .push .constant 3,
        .call Library.multiply 2]) after := ⟨_, rfl⟩
  obtain ⟨tree, reads, _, computes⟩ := expression_computes legible finished
  exact ⟨context, before, after, tree, legible, finished, reads, computes⟩

end JackCompiler
