import JackCompiler.Proofs.Files.ByteOrder
import JackCompiler.Proofs.Output.InstructionText
import Mathlib.Data.List.Basic
import Mathlib.Logic.Function.Basic

/-!
# Reading the text of buffers

The text of a buffer says what was written into it: its lines, each read by its words, are the
instructions that were emitted, as long as no name holds a blank. Emissions go to any number of
buffers, which are copied and appended to one another as well, and some of them stand for several
instructions. The record of these is kept apart from the buffers, which know nothing but their text
and their counter. The text of a buffer is read back as its record, and the counter is the length of
the record. So buffers have the same text only if the same instructions were emitted into them.
-/

namespace JackCompiler

/-! ## Reading -/

namespace Text

/-- The words of a line, with single spaces between them. -/
def words (line : String) : List String := (line.toList.splitOn ' ').map String.ofList

/-- The number that a word of decimal digits stands for, if it is below a bound. -/
def numberBelow? (bound : Nat) (word : String) : Option Nat :=
  if word.toList.all Char.isDigit ∧ decimalValue word.toList < bound then
    some (decimalValue word.toList)
  else
    none

/-- A decimal is read back. -/
theorem numberBelow?_decimal {bound number : Nat} (below : number < bound) :
    numberBelow? bound (decimal number) = some number := by
  have digits : (decimal number).toList.all Char.isDigit := by
    rw [List.all_eq_true]
    exact fun character => isDigit_of_mem_decimal
  rw [numberBelow?, decimalValue_decimal, if_pos ⟨digits, below⟩]

end Text

/-- The segment with a name. -/
def Segment.ofName? : String → Option Segment
  | "constant" => some .constant
  | "argument" => some .argument
  | "local" => some .local
  | "static" => some .static
  | "this" => some .this
  | "that" => some .that
  | "pointer" => some .pointer
  | "temp" => some .temp
  | _ => none

theorem Segment.ofName?_name (segment : Segment) : ofName? segment.name = some segment := by
  cases segment <;> rfl

/-- The command with a name. -/
def StackCommand.ofName? : String → Option StackCommand
  | "add" => some .add
  | "sub" => some .sub
  | "neg" => some .neg
  | "eq" => some .eq
  | "gt" => some .gt
  | "lt" => some .lt
  | "and" => some .and
  | "or" => some .or
  | "not" => some .not
  | _ => none

/-- The label that is written `LBL_N`. -/
def Label.ofText? (word : String) : Option Label :=
  match word.toList with
  | 'L' :: 'B' :: 'L' :: '_' :: digits =>
      (Text.numberBelow? UInt32.size (String.ofList digits)).map fun number =>
        ⟨UInt32.ofNat number⟩
  | _ => none

/-- The text of a label tells its number. -/
theorem Label.ofText?_text (label : Label) : ofText? label.text = some label := by
  have shape : label.text.toList =
      'L' :: 'B' :: 'L' :: '_' :: (Text.decimal label.number.toNat).toList := by
    simp [text]
  rw [ofText?, shape]
  show (Text.numberBelow? _ (String.ofList (Text.decimal _).toList)).map _ = _
  rw [String.ofList_toList, Text.numberBelow?_decimal label.number.toNat_lt, Option.map_some,
    UInt32.ofNat_toNat]

/-- The operand that a word stands for. -/
def wordValue? (word : String) : Option UInt16 :=
  (Text.numberBelow? UInt16.size word).map UInt16.ofNat

/-- The decimal of an operand tells it. -/
theorem wordValue?_decimal (operand : UInt16) :
    wordValue? (Text.decimal operand.toNat) = some operand := by
  rw [wordValue?, Text.numberBelow?_decimal operand.toNat_lt, Option.map_some, UInt16.ofNat_toNat]

namespace Instruction

/-- The instruction that some words make up. -/
def ofWords? : List String → Option Instruction
  | ["push", segment, index] => return .push (← Segment.ofName? segment) (← wordValue? index)
  | ["pop", segment, index] => return .pop (← Segment.ofName? segment) (← wordValue? index)
  | ["label", target] => return .label (← Label.ofText? target)
  | ["goto", target] => return .goto (← Label.ofText? target)
  | ["if-goto", target] => return .ifGoto (← Label.ofText? target)
  | ["call", name, arguments] => return .call name (← wordValue? arguments)
  | ["function", name, locals] => return .function name (← wordValue? locals)
  | ["return"] => some .return
  | [name] => return .command (← StackCommand.ofName? name)
  | _ => none

/-- The instruction that a line stands for. -/
def ofText? (line : String) : Option Instruction := ofWords? (Text.words line)

/-- The words of an instruction. -/
def words : Instruction → List String
  | .push segment index => ["push", segment.name, Text.decimal index.toNat]
  | .pop segment index => ["pop", segment.name, Text.decimal index.toNat]
  | .command operation => [operation.name]
  | .label target => ["label", target.text]
  | .goto target => ["goto", target.text]
  | .ifGoto target => ["if-goto", target.text]
  | .call name arguments => ["call", name, Text.decimal arguments.toNat]
  | .function name locals => ["function", name, Text.decimal locals.toNat]
  | .return => ["return"]

/-- The words tell which instruction they are of. -/
theorem ofWords?_words (instruction : Instruction) :
    ofWords? instruction.words = some instruction := by
  cases instruction with
  | push segment index => simp [words, ofWords?, Segment.ofName?_name, wordValue?_decimal]
  | pop segment index => simp [words, ofWords?, Segment.ofName?_name, wordValue?_decimal]
  | command operation => cases operation <;> rfl
  | label target => simp [words, ofWords?, Label.ofText?_text]
  | goto target => simp [words, ofWords?, Label.ofText?_text]
  | ifGoto target => simp [words, ofWords?, Label.ofText?_text]
  | call name arguments => simp [words, ofWords?, wordValue?_decimal]
  | function name locals => simp [words, ofWords?, wordValue?_decimal]
  | «return» => rfl

end Instruction

/-! ## Lines without blanks in names -/

/-- What joined lists hold is the separator or held by one of the lists. -/
theorem mem_intercalate {α : Type} {separator item : α} {lists : List (List α)}
    (member : item ∈ [separator].intercalate lists) :
    item = separator ∨ ∃ list ∈ lists, item ∈ list := by
  obtain ⟨part, isPart, inPart⟩ := List.mem_flatten.1 member
  clear member
  fun_induction List.intersperse [separator] lists with
  | case1 => cases isPart
  | case2 list => exact .inr ⟨part, isPart, inPart⟩
  | case3 list others apart inductionHypothesis =>
      rcases List.mem_cons.1 isPart with rfl | isPart
      · exact .inr ⟨part, List.mem_cons_self, inPart⟩
      · rcases List.mem_cons.1 isPart with rfl | isPart
        · exact .inl (List.mem_singleton.1 inPart)
        · rcases inductionHypothesis isPart with same | ⟨found, isFound, inFound⟩
          · exact .inl same
          · exact .inr ⟨found, List.mem_cons_of_mem _ isFound, inFound⟩

/-- Whether a name holds no blank. -/
def Blankless (name : String) : Prop := ∀ character ∈ name.toList, ¬character.isWhitespace

instance (name : String) : Decidable (Blankless name) := List.decidableBAll _ _

/-- Texts without blanks make a text without any. -/
theorem Blankless.append {first second : String} (one : Blankless first)
    (two : Blankless second) : Blankless (first ++ second) := by
  unfold Blankless
  rw [String.toList_append, List.forall_mem_append]
  exact ⟨one, two⟩

/-- Decimals have no blanks. -/
theorem blankless_decimal (number : Nat) : Blankless (Text.decimal number) := by
  intro character member
  have digit := Text.isDigit_of_mem_decimal member
  rintro blank
  simp only [Char.isWhitespace, Bool.or_eq_true, decide_eq_true_eq] at blank
  rcases blank with ((rfl | rfl) | rfl) | rfl <;> exact absurd digit (by decide)

namespace Instruction

/-- Whether the names in an instruction hold no blanks. -/
def Plain : Instruction → Prop
  | .call name _ | .function name _ => Blankless name
  | _ => True

/-- No word of a plain instruction holds a blank. -/
theorem Plain.words {instruction : Instruction} (plain : instruction.Plain) :
    ∀ word ∈ instruction.words, Blankless word := by
  have label (target : Label) : Blankless target.text := by
    have mark : Blankless "LBL_" := by decide
    exact mark.append (blankless_decimal _)
  cases instruction with
  | push segment index =>
      have name : Blankless segment.name := by cases segment <;> decide
      simpa [Instruction.words, name] using ⟨by decide, blankless_decimal _⟩
  | pop segment index =>
      have name : Blankless segment.name := by cases segment <;> decide
      simpa [Instruction.words, name] using ⟨by decide, blankless_decimal _⟩
  | command operation => cases operation <;> decide
  | label target => simpa [Instruction.words, label] using by decide
  | goto target => simpa [Instruction.words, label] using by decide
  | ifGoto target => simpa [Instruction.words, label] using by decide
  | call name arguments =>
      have isName : Blankless name := plain
      simpa [Instruction.words, isName] using ⟨by decide, blankless_decimal _⟩
  | function name locals =>
      have isName : Blankless name := plain
      simpa [Instruction.words, isName] using ⟨by decide, blankless_decimal _⟩
  | «return» => decide

/-- The text of an instruction is its words with single spaces between them. -/
theorem text_eq_intercalate (instruction : Instruction) :
    instruction.text.toList = [' '].intercalate (instruction.words.map String.toList) := by
  cases instruction with
  | push segment index =>
      show ("push " ++ segment.name ++ " " ++ Text.decimal index.toNat).toList = _
      simp [words, List.intercalate]
  | pop segment index =>
      show ("pop " ++ segment.name ++ " " ++ Text.decimal index.toNat).toList = _
      simp [words, List.intercalate]
  | call name arguments =>
      show ("call " ++ name ++ " " ++ Text.decimal arguments.toNat).toList = _
      simp [words, List.intercalate]
  | function name locals =>
      show ("function " ++ name ++ " " ++ Text.decimal locals.toNat).toList = _
      simp [words, List.intercalate]
  | command | label | goto | ifGoto | «return» => simp [text, words, List.intercalate]

/-- A plain instruction is read back from its line. -/
theorem ofText?_text {instruction : Instruction} (plain : instruction.Plain) :
    ofText? instruction.text = some instruction := by
  have space : ∀ word ∈ instruction.words.map String.toList, ' ' ∉ word := by
    rw [List.forall_mem_map]
    exact fun word member blank => plain.words word member ' ' blank rfl
  have some : instruction.words.map String.toList ≠ [] := by
    cases instruction <;> exact List.cons_ne_nil _ _
  have parts : Text.words instruction.text = instruction.words := by
    rw [Text.words, text_eq_intercalate, List.splitOn_intercalate ' ' space some, List.map_map]
    simp [Function.comp_def]
  rw [ofText?, parts, ofWords?_words]

/-- The line of a plain instruction holds no line break. -/
theorem Plain.unbroken {instruction : Instruction} (plain : instruction.Plain) :
    Unbroken instruction.text := by
  have unblank {character : Char} (blank : character.isWhitespace) (notSpace : character ≠ ' ') :
      character ∉ instruction.text.toList := by
    rw [text_eq_intercalate]
    intro member
    rcases mem_intercalate member with rfl | ⟨characters, isWord, inWord⟩
    · exact notSpace rfl
    · obtain ⟨word, member, rfl⟩ := List.mem_map.1 isWord
      exact plain.words word member character inWord blank
  exact ⟨unblank rfl (by decide), unblank rfl (by decide)⟩

end Instruction

/-! ## Emissions -/

/-- What can be written into a buffer. -/
inductive Emission
  | push (segment : Segment) (index : UInt16)
  | pop (segment : Segment) (index : UInt16)
  | binary (operator : BinaryOperator)
  | unary (operator : UnaryOperator)
  | constant (value : KeywordConstant)
  | string (text : String)
  | label (target : Label)
  | goto (target : Label)
  | ifGoto (target : Label)
  | call (name : String) (arguments : UInt16)
  | function (name : String) (locals : UInt16)
  | return
  /-- What the buffer with a given number holds at that time. -/
  | append (number : Nat)

/-- What can be done to buffers that go by numbers. -/
inductive BufferRequest
  | emit (number : Nat) (emission : Emission)
  /-- Makes one buffer a copy of another. -/
  | copy (number original : Nat)

namespace Emission

/-- The buffer after an emission. A string that is too long for the runtime library is refused. -/
def write (buffers : Nat → Buffer) (buffer : Buffer) : Emission → Buffer
  | .push segment index => buffer.push segment index
  | .pop segment index => buffer.pop segment index
  | .binary operator => buffer.binary operator
  | .unary operator => buffer.unary operator
  | .constant value => buffer.constant value
  | .string text => (buffer.string? text).getD buffer
  | .label target => buffer.label target
  | .goto target => buffer.goto target
  | .ifGoto target => buffer.ifGoto target
  | .call name arguments => buffer.call name arguments
  | .function name locals => buffer.function name locals
  | .return => buffer.leave
  | .append number => buffer ++ buffers number

/-- The primitive instructions of an emission, when the buffers hold given ones. -/
def primitives (held : Nat → List Instruction) : Emission → List Instruction
  | .push segment index => [.push segment index]
  | .pop segment index => [.pop segment index]
  | .binary .add => [.command .add]
  | .binary .sub => [.command .sub]
  | .binary .mul => [.call "Math.multiply" 2]
  | .binary .div => [.call "Math.divide" 2]
  | .binary .and => [.command .and]
  | .binary .or => [.command .or]
  | .binary .lt => [.command .lt]
  | .binary .gt => [.command .gt]
  | .binary .eq => [.command .eq]
  | .unary .neg => [.command .neg]
  | .unary .not => [.command .not]
  | .constant .true => [.push .constant 1, .command .neg]
  | .constant .false => [.push .constant 0]
  | .constant .null => [.push .constant 0]
  | .constant .this => [.push .pointer 0]
  | .string text =>
      if text.utf8ByteSize ≤ 65535 then
        .push .constant (UInt16.ofNat text.utf8ByteSize) :: .call "String.new" 1 ::
          (Text.bytes text).flatMap fun byte =>
            [.push .constant byte.toUInt16, .call "String.appendChar" 2]
      else
        []
  | .label target => [.label target]
  | .goto target => [.goto target]
  | .ifGoto target => [.ifGoto target]
  | .call name arguments => [.call name arguments]
  | .function name locals => [.function name locals]
  | .return => [.return]
  | .append number => held number

/-- Whether the names in an emission hold no blanks. -/
def Plain : Emission → Prop
  | .call name _ | .function name _ => Blankless name
  | _ => True

/-- Whatever is no copy of a buffer is written as its primitive instructions, one by one. -/
theorem write_eq_foldl {emission : Emission} (own : ∀ number, emission ≠ .append number)
    (buffers : Nat → Buffer) (held : Nat → List Instruction) (buffer : Buffer) :
    emission.write buffers buffer = (emission.primitives held).foldl Buffer.write buffer := by
  cases emission with
  | binary operator => cases operator <;> rfl
  | unary operator => cases operator <;> rfl
  | constant value => cases value <;> rfl
  | string text =>
      have written := Buffer.string?_eq_write buffer text
      rw [write, primitives]
      by_cases fits : text.utf8ByteSize ≤ 65535
      · rw [if_pos fits, written, Text.bytes_eq]
        exact congrArg (Option.getD · buffer) (if_pos fits)
      · rw [if_neg fits, written]
        exact congrArg (Option.getD · buffer) (if_neg fits)
  | append number => exact absurd rfl (own number)
  | push | pop | label | goto | ifGoto | call | function | «return» => rfl

/-- An emission adds its primitive instructions to what a buffer holds. -/
theorem holds_write {buffers : Nat → Buffer} {held : Nat → List Instruction}
    (known : ∀ number, (buffers number).Holds (held number)) {buffer : Buffer}
    {instructions : List Instruction} (holds : buffer.Holds instructions) (emission : Emission) :
    (emission.write buffers buffer).Holds (instructions ++ emission.primitives held) := by
  -- Another buffer is appended as a whole, and all else instruction by instruction.
  by_cases copies : ∃ number, emission = .append number
  · obtain ⟨number, rfl⟩ := copies
    exact holds.append (known number)
  · rw [write_eq_foldl (not_exists.1 copies) buffers held]
    exact holds.writeAll _

/-- A plain emission emits plain instructions, if those held are plain. -/
theorem Plain.primitives {emission : Emission} {held : Nat → List Instruction}
    (plain : emission.Plain) (known : ∀ number, ∀ instruction ∈ held number, instruction.Plain) :
    ∀ instruction ∈ emission.primitives held, instruction.Plain := by
  cases emission with
  | binary operator =>
      cases operator with
      | mul => exact List.forall_mem_singleton.2 (by decide : Blankless "Math.multiply")
      | div => exact List.forall_mem_singleton.2 (by decide : Blankless "Math.divide")
      | _ => exact List.forall_mem_singleton.2 trivial
  | unary operator => cases operator <;> exact List.forall_mem_singleton.2 trivial
  | constant value => cases value <;> simp [Emission.primitives, Instruction.Plain]
  | string text =>
      have makes : Blankless "String.new" := by decide
      have appends : Blankless "String.appendChar" := by decide
      rw [Emission.primitives]
      split
      · rw [List.forall_mem_cons, List.forall_mem_cons]
        refine ⟨trivial, makes, fun instruction member => ?_⟩
        obtain ⟨byte, -, isByte⟩ := List.mem_flatMap.1 member
        rcases List.mem_pair.1 isByte with rfl | rfl
        · trivial
        · exact appends
      · exact List.forall_mem_nil _
  | call name arguments => exact List.forall_mem_singleton.2 plain
  | function name locals => exact List.forall_mem_singleton.2 plain
  | append number => exact known number
  | push | pop | label | goto | ifGoto | «return» => exact List.forall_mem_singleton.2 trivial

end Emission

namespace BufferRequest

/-- The buffers after a request. -/
def serve (buffers : Nat → Buffer) : BufferRequest → Nat → Buffer
  | .emit number emission =>
      Function.update buffers number (emission.write buffers (buffers number))
  | .copy number original => Function.update buffers number (buffers original)

/-- The primitive instructions emitted into each buffer after a request. -/
def record (held : Nat → List Instruction) : BufferRequest → Nat → List Instruction
  | .emit number emission =>
      Function.update held number (held number ++ emission.primitives held)
  | .copy number original => Function.update held number (held original)

/-- The buffers after requests, which are empty at first. -/
def serveAll (requests : List BufferRequest) : Nat → Buffer :=
  requests.foldl serve fun _ => .empty

/-- The primitive instructions emitted into each buffer by requests. -/
def recordAll (requests : List BufferRequest) : Nat → List Instruction :=
  requests.foldl record fun _ => []

/-- Whether the names in a request hold no blanks. -/
def Plain : BufferRequest → Prop
  | .emit _ emission => emission.Plain
  | .copy _ _ => True

/-- Buffers hold their records if one of them and its record are replaced by a buffer and what it
holds. -/
theorem holds_update {buffers : Nat → Buffer} {held : Nat → List Instruction}
    (known : ∀ number, (buffers number).Holds (held number)) {buffer : Buffer}
    {instructions : List Instruction} (holds : buffer.Holds instructions) (target number : Nat) :
    (Function.update buffers target buffer number).Holds
      (Function.update held target instructions number) := by
  by_cases here : number = target
  · rw [here, Function.update_self, Function.update_self]
    exact holds
  · rw [Function.update_of_ne here, Function.update_of_ne here]
    exact known number

/-- Each buffer holds its record, also after a request. -/
theorem holds_serve {buffers : Nat → Buffer} {held : Nat → List Instruction}
    (known : ∀ number, (buffers number).Holds (held number)) (request : BufferRequest) :
    ∀ number, (request.serve buffers number).Holds (request.record held number) := by
  cases request with
  | emit target emission =>
      exact holds_update known (Emission.holds_write known (known target) emission) target
  | copy target original => exact holds_update known (known original) target

/-- Whatever is requested, each buffer holds its record. -/
theorem holds_serveAll (requests : List BufferRequest) (number : Nat) :
    (serveAll requests number).Holds (recordAll requests number) := by
  have run {buffers : Nat → Buffer} {held : Nat → List Instruction}
      (known : ∀ number, (buffers number).Holds (held number)) :
      ∀ number, (requests.foldl serve buffers number).Holds
        (requests.foldl record held number) := by
    induction requests generalizing buffers held with
    | nil => exact known
    | cons request requests inductionHypothesis =>
        exact inductionHypothesis (holds_serve known request)
  exact run (fun _ => Buffer.holds_empty) number

/-- Plain requests leave plain instructions in the records. -/
theorem Plain.record {held : Nat → List Instruction} {request : BufferRequest}
    (plain : request.Plain) (known : ∀ number, ∀ instruction ∈ held number, instruction.Plain) :
    ∀ number, ∀ instruction ∈ request.record held number, instruction.Plain := by
  cases request with
  | emit target emission =>
      refine (Function.forall_update_iff held fun _ instructions =>
        ∀ instruction ∈ instructions, instruction.Plain).2 ⟨?_, fun number _ => known number⟩
      exact List.forall_mem_append.2 ⟨known target, Emission.Plain.primitives plain known⟩
  | copy target original =>
      exact (Function.forall_update_iff held fun _ instructions =>
        ∀ instruction ∈ instructions, instruction.Plain).2
          ⟨known original, fun number _ => known number⟩

/-- Records of plain emissions are plain. -/
theorem plain_recordAll {requests : List BufferRequest}
    (plain : ∀ request ∈ requests, request.Plain) (number : Nat) :
    ∀ instruction ∈ recordAll requests number, instruction.Plain := by
  have run (held : Nat → List Instruction)
      (known : ∀ number, ∀ instruction ∈ held number, instruction.Plain) :
      ∀ number, ∀ instruction ∈ requests.foldl BufferRequest.record held number,
        instruction.Plain := by
    induction requests generalizing held with
    | nil => exact known
    | cons request requests inductionHypothesis =>
        obtain ⟨first, others⟩ := List.forall_mem_cons.1 plain
        exact inductionHypothesis others _ (first.record known)
  exact run _ (fun _ => List.forall_mem_nil _) number

end BufferRequest

/-! ## Transcripts -/

namespace Buffer

variable {buffer first second : Buffer} {instructions others : List Instruction}

/-- A buffer of plain instructions is read back from its text, line by line. -/
theorem Holds.mapM_lines (holds : buffer.Holds instructions)
    (plain : ∀ instruction ∈ instructions, instruction.Plain) :
    buffer.lines.mapM Instruction.ofText? = some instructions := by
  rw [holds.lines_eq fun instruction inside => (plain instruction inside).unbroken]
  clear holds
  induction instructions with
  | nil => rfl
  | cons first others inductionHypothesis =>
      obtain ⟨isFirst, areOthers⟩ := List.forall_mem_cons.1 plain
      rw [List.map_cons, List.mapM_cons, Instruction.ofText?_text isFirst,
        inductionHypothesis areOthers]
      rfl

/-- Buffers of plain instructions with the same text hold the same instructions. -/
theorem Holds.eq_of_text (one : first.Holds instructions) (two : second.Holds others)
    (plain : ∀ instruction ∈ instructions, instruction.Plain)
    (plain' : ∀ instruction ∈ others, instruction.Plain) (same : first.text = second.text) :
    instructions = others := by
  have read := one.mapM_lines plain
  rw [lines, same] at read
  exact Option.some.inj (read.symm.trans (two.mapM_lines plain'))

end Buffer

open BufferRequest in
/-- Whatever is emitted into buffers, with names that hold no blanks, the lines of the text of a
buffer are read back as exactly the primitive instructions that were emitted into it, and the
counter that was kept beside the text is their number. So two buffers, also of different histories,
have the same text exactly if the same instructions were emitted into them; then their counters
agree as well, and the buffers are the same. -/
theorem emissions_decode (requests others : List BufferRequest)
    (plain : ∀ request ∈ requests, request.Plain) (plain' : ∀ request ∈ others, request.Plain)
    (number number' : Nat) :
    (serveAll requests number).lines.mapM Instruction.ofText? =
        some (recordAll requests number) ∧
      (serveAll requests number).count = (recordAll requests number).length ∧
      ((serveAll requests number).text = (serveAll others number').text ↔
        recordAll requests number = recordAll others number') ∧
      ((serveAll requests number).text = (serveAll others number').text →
        (serveAll requests number).count = (serveAll others number').count) ∧
      (serveAll requests number = serveAll others number' ↔
        recordAll requests number = recordAll others number') := by
  have holds := holds_serveAll requests number
  have holds' := holds_serveAll others number'
  have isPlain := plain_recordAll plain number
  have isPlain' := plain_recordAll plain' number'
  have apart := holds.eq_of_text holds' isPlain isPlain'
  have alike (same : recordAll requests number = recordAll others number') :
      serveAll requests number = serveAll others number' := holds.unique (same ▸ holds')
  refine ⟨holds.mapM_lines isPlain, holds.count, ⟨apart, ?sameText⟩, ?sameCount,
    ⟨?sameRecord, alike⟩⟩
  case sameText => exact fun same => congrArg Buffer.text (alike same)
  case sameCount => exact fun same => congrArg Buffer.count (alike (apart same))
  case sameRecord => exact fun same => apart (congrArg Buffer.text same)

open BufferRequest in
/-- A buffer that a copy of itself and a string of two bytes were appended to, and one into which
the same instructions were emitted one by one. -/
theorem emissions_decode_of_copy :
    ∃ requests others : List BufferRequest, (∀ request ∈ requests, request.Plain) ∧
      (∀ request ∈ others, request.Plain) ∧
      (serveAll requests 0).lines = ["function A.f 0", "call Math.multiply 2", "function A.f 0",
        "call Math.multiply 2", "push constant 2", "call String.new 1", "push constant 195",
        "call String.appendChar 2", "push constant 169", "call String.appendChar 2"] ∧
      (serveAll requests 0).lines.mapM Instruction.ofText? = some [.function "A.f" 0,
        .call "Math.multiply" 2, .function "A.f" 0, .call "Math.multiply" 2, .push .constant 2,
        .call "String.new" 1, .push .constant 195, .call "String.appendChar" 2,
        .push .constant 169, .call "String.appendChar" 2] ∧
      (serveAll requests 0).count = 10 ∧ (serveAll requests 0).text = (serveAll others 3).text ∧
      serveAll requests 0 = serveAll others 3 := by
  let requests : List BufferRequest := [.emit 0 (.function "A.f" 0), .emit 0 (.binary .mul),
    .copy 1 0, .emit 0 (.append 1), .emit 0 (.string "é")]
  let others : List BufferRequest := [.emit 3 (.function "A.f" 0),
    .emit 3 (.call "Math.multiply" 2), .emit 3 (.append 3), .emit 3 (.push .constant 2),
    .emit 3 (.call "String.new" 1), .emit 3 (.push .constant 195),
    .emit 3 (.call "String.appendChar" 2), .emit 3 (.push .constant 169),
    .emit 3 (.call "String.appendChar" 2)]
  have named : Blankless "A.f" ∧ Blankless "Math.multiply" ∧ Blankless "String.new" ∧
      Blankless "String.appendChar" := by decide
  have plain : ∀ request ∈ requests, request.Plain := by
    simp [requests, Plain, Emission.Plain, named]
  have plain' : ∀ request ∈ others, request.Plain := by
    simp [others, Plain, Emission.Plain, named]
  have recorded : recordAll requests 0 = [.function "A.f" 0, .call "Math.multiply" 2,
      .function "A.f" 0, .call "Math.multiply" 2, .push .constant 2, .call "String.new" 1,
      .push .constant 195, .call "String.appendChar" 2, .push .constant 169,
      .call "String.appendChar" 2] := by
    decide +kernel
  have same : recordAll requests 0 = recordAll others 3 := by decide +kernel
  have lines : (serveAll requests 0).lines = ["function A.f 0", "call Math.multiply 2",
      "function A.f 0", "call Math.multiply 2", "push constant 2", "call String.new 1",
      "push constant 195", "call String.appendChar 2", "push constant 169",
      "call String.appendChar 2"] := by
    decide +kernel
  obtain ⟨read, count, text, -, equal⟩ := emissions_decode requests others plain plain' 0 3
  rw [recorded] at read count
  exact ⟨requests, others, plain, plain', lines, read, count, text.2 same, equal.2 same⟩

end JackCompiler
