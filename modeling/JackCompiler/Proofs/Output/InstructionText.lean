import JackCompiler.Proofs.Labelling.Draws
import JackCompiler.Proofs.Output.Block
import JackCompiler.Proofs.Output.CallNames

/-!
# The text of compiled units

The grammar of the lines in a compiled unit. The parts of a line are separated by single spaces.

    line     ::= ("push" | "pop") segment operand | command | ("label" | "goto" | "if-goto") label
               | ("call" | "function") fullName operand | "return"
    segment  ::= "constant" | "argument" | "local" | "static" | "this" | "that" | "pointer" | "temp"
    command  ::= "add" | "sub" | "neg" | "eq" | "gt" | "lt" | "and" | "or" | "not"
    label    ::= "LBL_" decimal
    fullName ::= word "." word

Numbers are decimal without leading zeros; operands fit in 16 bits and label numbers in 32. No line
of this grammar holds a line break, so the text of code falls apart into the texts of its
instructions.
-/

namespace JackCompiler

open Grammar Lexing

/-- A number in decimal, without leading zeros and no larger than a bound. -/
structure IsDecimal (bound : Nat) (text : String) : Prop where
  nonempty : text.toList ≠ []
  digits : ∀ character ∈ text.toList, Digit character
  leading : text.toList.head? = some '0' → text = "0"
  value : Text.decimalValue text.toList ≤ bound

/-- A line of a compiled unit. -/
inductive IsLine : String → Prop
  | access {verb segment operand : String} (isVerb : verb ∈ ["push", "pop"])
      (isSegment : segment ∈
        ["constant", "argument", "local", "static", "this", "that", "pointer", "temp"])
      (isOperand : IsDecimal 65535 operand) : IsLine (verb ++ " " ++ segment ++ " " ++ operand)
  | command {name : String}
      (isCommand : name ∈ ["add", "sub", "neg", "eq", "gt", "lt", "and", "or", "not"]) :
      IsLine name
  | branch {verb number : String} (isVerb : verb ∈ ["label", "goto", "if-goto"])
      (isNumber : IsDecimal 4294967295 number) : IsLine (verb ++ " " ++ "LBL_" ++ number)
  | subroutine {verb name operand : String} (isVerb : verb ∈ ["call", "function"])
      (isName : IsFullName name) (isOperand : IsDecimal 65535 operand) :
      IsLine (verb ++ " " ++ name ++ " " ++ operand)
  | return : IsLine "return"

/-- A line that starts a subroutine. -/
def IsHeadLine (line : String) : Prop := "function ".toList <+: line.toList

instance (line : String) : Decidable (IsHeadLine line) :=
  inferInstanceAs (Decidable ("function ".toList <+: line.toList))

/-! ## Numbers -/

/-- A number that is not zero is written without leading zeros. -/
theorem head?_toDigits {number : Nat} (positive : 0 < number) :
    (Nat.toDigits 10 number).head? ≠ some '0' := by
  induction number using Nat.base_induction 10 (by decide) with
  | single digit below =>
      rw [Nat.toDigits_of_lt_base below]
      intro zero
      exact Nat.ne_of_gt positive (Nat.digitChar_eq_zero.1 (Option.some.inj zero))
  | digit leading last below some inductionHypothesis =>
      rw [← Nat.toDigits_append_toDigits (by decide) some below,
        List.head?_append_of_ne_nil _ Nat.toDigits_ne_nil]
      exact inductionHypothesis some

/-- Numbers are written as decimals of their bound. -/
theorem isDecimal_decimal {number bound : Nat} (below : number ≤ bound) :
    IsDecimal bound (Text.decimal number) := by
  have shape : (Text.decimal number).toList = Nat.toDigits 10 number := String.toList_ofList
  refine ⟨?_, ?_, ?_, ?_⟩
  · rw [shape]
    exact Nat.toDigits_ne_nil
  · intro character member
    rw [shape] at member
    exact isDigit_iff.1 (Nat.isDigit_of_mem_toDigits (by decide) (by decide) member)
  · intro zero
    rw [shape] at zero
    rcases Nat.eq_zero_or_pos number with rfl | positive
    · rfl
    · exact absurd zero (head?_toDigits positive)
  · have value : Text.decimalValue (Nat.toDigits 10 number) = number :=
      Nat.ofDigitChars_ten_toDigits
    rw [shape, value]
    exact below

/-- Operands are written as decimals that fit in 16 bits. -/
theorem isDecimal_operand (operand : UInt16) : IsDecimal 65535 (Text.decimal operand.toNat) :=
  isDecimal_decimal (Nat.le_of_lt_succ operand.toNat_lt)

/-! ## Instructions -/

namespace Instruction

/-- Whether an instruction calls and starts subroutines by their full names. -/
def Named : Instruction → Prop
  | .call name _ | .function name _ => IsFullName name
  | _ => True

/-- The text of an instruction is a line. -/
theorem isLine_text {instruction : Instruction} (named : instruction.Named) :
    IsLine instruction.text := by
  have branch {verb : String} (isVerb : verb ∈ ["label", "goto", "if-goto"]) (target : Label) :
      IsLine (verb ++ " " ++ target.text) := by
    rw [Label.text, ← String.append_assoc]
    exact .branch isVerb (isDecimal_decimal (Nat.le_of_lt_succ target.number.toNat_lt))
  have access {verb : String} (isVerb : verb ∈ ["push", "pop"]) (segment : Segment)
      (index : UInt16) :
      IsLine (verb ++ " " ++ segment.name ++ " " ++ Text.decimal index.toNat) :=
    .access isVerb (by cases segment <;> decide) (isDecimal_operand index)
  have subroutine {verb name : String} (isVerb : verb ∈ ["call", "function"])
      (isName : IsFullName name) (operand : UInt16) :
      IsLine (verb ++ " " ++ name ++ " " ++ Text.decimal operand.toNat) :=
    .subroutine isVerb isName (isDecimal_operand operand)
  cases instruction with
  | push segment index => exact access (by decide : "push" ∈ _) segment index
  | pop segment index => exact access (by decide : "pop" ∈ _) segment index
  | command operation => exact .command (by cases operation <;> decide)
  | label target => exact branch (by decide : "label" ∈ _) target
  | goto target => exact branch (by decide : "goto" ∈ _) target
  | ifGoto target => exact branch (by decide : "if-goto" ∈ _) target
  | call name arguments => exact subroutine (by decide : "call" ∈ _) named arguments
  | function name locals => exact subroutine (by decide : "function" ∈ _) named locals
  | «return» => exact .return

/-- The heads of subroutines are told apart by their texts. -/
theorem isHeadLine_text_iff {instruction : Instruction} :
    IsHeadLine instruction.text ↔ instruction.isHead = true := by
  cases instruction with
  | function name locals =>
      refine iff_of_true ?_ rfl
      show "function ".toList <+: ("function " ++ name ++ " " ++ Text.decimal locals.toNat).toList
      simp
  | push segment index =>
      refine iff_of_false ?_ Bool.false_ne_true
      show ¬"function ".toList <+:
        ("push " ++ segment.name ++ " " ++ Text.decimal index.toNat).toList
      simp
  | pop segment index =>
      refine iff_of_false ?_ Bool.false_ne_true
      show ¬"function ".toList <+:
        ("pop " ++ segment.name ++ " " ++ Text.decimal index.toNat).toList
      simp
  | call name arguments =>
      refine iff_of_false ?_ Bool.false_ne_true
      show ¬"function ".toList <+: ("call " ++ name ++ " " ++ Text.decimal arguments.toNat).toList
      simp
  | command operation => exact iff_of_false (by cases operation <;> decide) Bool.false_ne_true
  | label | goto | ifGoto | «return» =>
      refine iff_of_false ?_ Bool.false_ne_true
      simp [IsHeadLine, Instruction.text]

end Instruction

/-! ## Lines -/

/-- Whether a text holds no line break. -/
def Unbroken (text : String) : Prop := '\n' ∉ text.toList ∧ '\r' ∉ text.toList

instance (text : String) : Decidable (Unbroken text) :=
  inferInstanceAs (Decidable (_ ∧ _))

/-- Texts without line breaks make a text without any. -/
theorem Unbroken.append {first second : String} (one : Unbroken first) (two : Unbroken second) :
    Unbroken (first ++ second) := by
  unfold Unbroken
  rw [String.toList_append, List.mem_append, List.mem_append]
  exact ⟨not_or.2 ⟨one.1, two.1⟩, not_or.2 ⟨one.2, two.2⟩⟩

/-- Names have no line breaks. -/
theorem unbroken_of_namePart {text : String}
    (parts : ∀ character ∈ text.toList, NamePart character) : Unbroken text := by
  have feed : ¬NamePart '\n' := mt continuesName_iff.2 (by decide)
  have ret : ¬NamePart '\r' := mt continuesName_iff.2 (by decide)
  exact ⟨fun member => feed (parts _ member), fun member => ret (parts _ member)⟩

/-- Decimals have no line breaks. -/
theorem IsDecimal.unbroken {bound : Nat} {text : String} (isDecimal : IsDecimal bound text) :
    Unbroken text :=
  unbroken_of_namePart fun character member => .inr (isDecimal.digits character member)

/-- Full names have no line breaks. -/
theorem IsFullName.unbroken {text : String} (isFullName : IsFullName text) : Unbroken text := by
  obtain ⟨owner, name, isOwner, isName, rfl⟩ := isFullName
  have dot : Unbroken "." := by decide
  exact ((unbroken_of_namePart isOwner.forall_namePart).append dot).append
    (unbroken_of_namePart isName.forall_namePart)

/-- A line holds no line break. -/
theorem IsLine.unbroken {line : String} (isLine : IsLine line) : Unbroken line := by
  have space : Unbroken " " := by decide
  cases isLine with
  | access isVerb isSegment isOperand =>
      have verb := (by decide : ∀ verb ∈ ["push", "pop"], Unbroken verb) _ isVerb
      have segment := (by decide : ∀ segment ∈ ["constant", "argument", "local", "static", "this",
        "that", "pointer", "temp"], Unbroken segment) _ isSegment
      exact (((verb.append space).append segment).append space).append isOperand.unbroken
  | command isCommand =>
      exact (by decide : ∀ name ∈ ["add", "sub", "neg", "eq", "gt", "lt", "and", "or", "not"],
        Unbroken name) _ isCommand
  | branch isVerb isNumber =>
      have verb := (by decide : ∀ verb ∈ ["label", "goto", "if-goto"], Unbroken verb) _ isVerb
      have mark : Unbroken "LBL_" := by decide
      exact ((verb.append space).append mark).append isNumber.unbroken
  | subroutine isVerb isName isOperand =>
      have verb := (by decide : ∀ verb ∈ ["call", "function"], Unbroken verb) _ isVerb
      exact (((verb.append space).append isName.unbroken).append space).append isOperand.unbroken
  | «return» => decide

namespace Buffer

variable {buffer : Buffer} {instructions : List Instruction}

/-- The text that is taken down is made of the texts of the instructions. -/
theorem Holds.text_eq_join (holds : buffer.Holds instructions) :
    buffer.text = String.join ((instructions.map Instruction.text).map (· ++ "\n")) := by
  rw [holds.text, List.map_map]
  rfl

/-- If no text of an instruction holds a line break, these texts are the lines. -/
theorem Holds.lines_eq (holds : buffer.Holds instructions)
    (unbroken : ∀ instruction ∈ instructions, Unbroken instruction.text) :
    buffer.lines = instructions.map Instruction.text := by
  rw [lines, holds.text_eq_join]
  refine Text.lines_join ?_
  intro line member
  obtain ⟨instruction, inside, rfl⟩ := List.mem_map.1 member
  exact unbroken instruction inside

end Buffer

/-- The lines of code with full names are the texts of its instructions. -/
theorem Code.lines_eq {code : Code} (named : ∀ instruction ∈ code.toList, instruction.Named) :
    code.lines = code.toList.map Instruction.text :=
  code.holds.lines_eq fun instruction inCode =>
    (Instruction.isLine_text (named instruction inCode)).unbroken

/-! ## Compiled units -/

namespace Grammar

section Subroutines

variable {tree : ClassDeclaration} (label : Nat → Label)

/-- The code of a subroutine calls and starts subroutines by their full names. -/
theorem Subroutine.named_code (names : NamesIn IsWord tree.yield) {subroutine : Subroutine}
    (member : subroutine ∈ tree.subroutines)
    (admissible : subroutine.Admissible tree.name tree.declarations) (number : Nat) :
    ∀ instruction ∈ subroutine.code tree.name tree.declarations label number,
      instruction.Named := by
  intro instruction inCode
  cases instruction with
  | call name arguments =>
      have called : (name, arguments.toNat) ∈
          callsIn (subroutine.code tree.name tree.declarations label number) :=
        List.mem_filterMap.2 ⟨_, inCode, rfl⟩
      rw [admissible.callsIn_code] at called
      exact subroutine.fullName_calls names member _ called
  | function name locals =>
      rw [Subroutine.code_eq, Block.instructions] at inCode
      rcases List.mem_cons.1 inCode with isHead | inBody
      · cases isHead
        exact ⟨_, _, names.className, (names.subroutine member).subroutineName, rfl⟩
      · rcases List.mem_append.1 inBody with inPrologue | inBody
        · cases subroutine.kind.not_head _ _ inPrologue
        · cases subroutine.body.not_head label _ _ _ inBody
  | _ => trivial

/-- All instructions of the subroutines of a class have names of words. -/
theorem named_subroutinesCode (names : NamesIn IsWord tree.yield) (number : Nat)
    {subroutines : List Subroutine} (inTree : ∀ subroutine ∈ subroutines,
      subroutine ∈ tree.subroutines ∧ subroutine.Admissible tree.name tree.declarations) :
    ∀ instruction ∈ subroutinesCode tree.name tree.declarations label number subroutines,
      instruction.Named := by
  induction subroutines generalizing number with
  | nil => exact List.forall_mem_nil _
  | cons first others inductionHypothesis =>
      obtain ⟨⟨member, admissible⟩, inTree⟩ := List.forall_mem_cons.1 inTree
      exact List.forall_mem_append.2 ⟨first.named_code label names member admissible number,
        inductionHypothesis _ inTree⟩

/-- The heads in the code of subroutines name them in order. -/
theorem heads_subroutinesCode (className : String) (ofClass : List (Declaration ClassStorage))
    (number : Nat) (subroutines : List Subroutine) :
    (subroutinesCode className ofClass label number subroutines).filter Instruction.isHead =
      subroutines.map fun subroutine => .function (className ++ "." ++ subroutine.name)
        (UInt16.ofNat subroutine.localDeclarations.length) := by
  induction subroutines generalizing number with
  | nil => rfl
  | cons first others inductionHypothesis =>
      have bare : (first.block className ofClass label number).body.filter Instruction.isHead =
          [] := by
        rw [List.filter_eq_nil_iff, Subroutine.block, List.forall_mem_append]
        exact ⟨fun instruction inPrologue => by simp [first.kind.not_head _ instruction inPrologue],
          fun instruction inBody => by simp [first.body.not_head label _ _ instruction inBody]⟩
      rw [subroutinesCode, List.filter_append, inductionHypothesis, Subroutine.code_eq,
        Block.instructions, List.filter_cons_of_pos rfl, bare]
      rfl

end Subroutines

end Grammar

/-- The text of a compiled unit consists of lines of the grammar, each with a line feed behind it,
as many as were counted while the buffers of its parts were written and joined. It is empty or
starts with the head of a subroutine, and its heads are those of the subroutines in the source, each
by the names of the class and its own. -/
theorem compile_text_wellFormed {σ : Type} [LabelSource σ] {start labels : σ}
    {unit source : String} {compiled : CompiledUnit} (fits : source.utf8ByteSize ≤ Span.maxOffset)
    (success : compile start unit source = (.ok compiled, labels)) :
    compiled.code.text = String.join (compiled.code.lines.map (· ++ "\n")) ∧
    compiled.code.lines.length = compiled.code.buffer.count ∧
    (∀ line ∈ compiled.code.lines, IsLine line) ∧
    (∀ line ∈ compiled.code.lines.head?, IsHeadLine line) ∧
    ∃ tree : ClassDeclaration, tree.IsTreeOf source ∧ compiled.className = tree.name ∧
      compiled.code.lines.filter IsHeadLine = tree.subroutines.map fun subroutine =>
        "function " ++ compiled.className ++ "." ++ subroutine.name ++ " " ++
          Text.decimal subroutine.localDeclarations.length := by
  obtain ⟨tree, isTree, admissible, className, isCode, _⟩ :=
    tree_of_compile (LabelSource.numbering start) fits (LabelSource.numbering_stands start) success
  have named : ∀ instruction ∈ compiled.code.toList, instruction.Named := by
    rw [isCode]
    exact named_subroutinesCode _ isTree.words _ fun subroutine member =>
      ⟨member, admissible.subroutines subroutine member⟩
  have lines := Code.lines_eq named
  refine ⟨?_, ?_, ?_, ?_, tree, isTree, className, ?_⟩
  · rw [lines]
    exact compiled.code.holds.text_eq_join
  · rw [lines, List.length_map]
    exact compiled.code.holds.count.symm
  · intro line member
    rw [lines] at member
    obtain ⟨instruction, inCode, rfl⟩ := List.mem_map.1 member
    exact Instruction.isLine_text (named instruction inCode)
  · intro line first
    rw [lines, List.head?_map, isCode] at first
    obtain ⟨instruction, isFirst, rfl⟩ := Option.map_eq_some_iff.1 first
    exact Instruction.isHeadLine_text_iff.2 (isHead_subroutinesCode _ _ _ _ _ instruction isFirst)
  · have heads :
        (fun line => decide (IsHeadLine line)) ∘ Instruction.text = Instruction.isHead := by
      funext instruction
      rw [Function.comp_apply, Bool.eq_iff_iff, decide_eq_true_eq]
      exact Instruction.isHeadLine_text_iff
    rw [lines, List.filter_map, heads, isCode, ClassDeclaration.code, heads_subroutinesCode,
      List.map_map, className]
    refine List.map_congr_left fun subroutine member => ?_
    have locals := (admissible.subroutines subroutine member).toNat_locals
    show "function " ++ (tree.name ++ "." ++ subroutine.name) ++ " " ++ Text.decimal _ = _
    rw [locals, ← String.append_assoc, ← String.append_assoc]

/-- The type of a variable stands in front of the dot, also if it is a reserved word. -/
theorem compile_text_wellFormed_of_call :
    ∃ (source : String) (compiled : CompiledUnit) (labels : LabelCounter) (tree : ClassDeclaration),
      source.utf8ByteSize ≤ Span.maxOffset ∧
      compile (⟨7⟩ : LabelCounter) "A" source = (.ok compiled, labels) ∧ tree.IsTreeOf source ∧
      compiled.code.lines = ["function A.f 1", "label LBL_7", "push local 0", "not",
        "if-goto LBL_8", "push local 0", "call int.g 1", "pop temp 0", "goto LBL_7", "label LBL_8",
        "push constant 0", "return"] ∧
      compiled.code.text = String.join (compiled.code.lines.map (· ++ "\n")) ∧
      compiled.code.lines.length = compiled.code.buffer.count ∧
      (∀ line ∈ compiled.code.lines, IsLine line) ∧
      (∀ line ∈ compiled.code.lines.head?, IsHeadLine line) ∧
      compiled.className = tree.name ∧
      compiled.code.lines.filter IsHeadLine = tree.subroutines.map fun subroutine =>
        "function " ++ compiled.className ++ "." ++ subroutine.name ++ " " ++
          Text.decimal subroutine.localDeclarations.length := by
  let source := "class A\x7bfunction void f()\x7bvar int i;while(i)\x7bdo i.g();\x7dreturn;\x7d\x7d"
  let test : Expression := .mk (.name "i") .nil
  let body : Statements :=
    .cons (.loop test (.cons (.perform (.qualified "i" "g" .nil)) .nil)) (.cons (.return none) .nil)
  let tree : ClassDeclaration :=
    ⟨"A", [], [⟨.function, none, "f", [], [⟨.int, "i", []⟩], body⟩]⟩
  have fits : source.utf8ByteSize ≤ Span.maxOffset := by decide +kernel
  have isTree : tree.IsTreeOf source := by decide +kernel
  have admissible : tree.Admissible := by
    refine ⟨fun storage => ?_, List.forall_mem_singleton.2 ⟨fun storage => ?_, by decide +kernel⟩⟩
    · cases storage <;> decide +kernel
    · cases storage <;> decide +kernel
  have drawn : LabelSource.drawn? (⟨7⟩ : LabelCounter) (labelCount tree.subroutines) = some ⟨9⟩ :=
    rfl
  obtain ⟨compiled, success, _, isCode⟩ := compile_of_tree "A" fits isTree admissible drawn
  have isCompiled : compiled.code = .ofList [.function "A.f" 1, .label ⟨7⟩, .push .local 0,
      .command .not, .ifGoto ⟨8⟩, .push .local 0, .call "int.g" 1, .pop .temp 0, .goto ⟨7⟩,
      .label ⟨8⟩, .push .constant 0, .return] := by
    refine Code.toList_injective (isCode.trans ?_)
    decide +kernel
  obtain ⟨text, count, lines, first, other, isOther, className, heads⟩ :=
    compile_text_wellFormed fits success
  refine ⟨source, compiled, ⟨9⟩, other, fits, success, isOther, ?_, text, count, lines, first,
    className, heads⟩
  rw [isCompiled]
  decide +kernel

end JackCompiler
