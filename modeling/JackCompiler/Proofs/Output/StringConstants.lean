import JackCompiler.Proofs.Comparison.Breakdowns
import JackCompiler.Proofs.Lexing.Specification
import JackCompiler.Proofs.Recognition.Agreement
import Mathlib.Data.List.Forall2

/-!
# String constants at run time

What stands between the quotes of a string constant is what its code appends to a new string. Four
pieces have to fit: the characters that the reader lets through, the span of the token, the slice
without the quotes, and the code that is emitted byte by byte. They do since all characters of a
constant are ASCII, where a character, its byte and its number are one.

In the code of a unit the codes of its constants follow one another as the constants do in the
source. That goes by the tree: each construct emits the code of its parts in the order of its
terminals.
-/

namespace JackCompiler

open Grammar

/-! ## Characters -/

/-- Characters that can stand between quotes: not too many, and each an ASCII character that is
neither NUL, a line feed, a carriage return nor the quote. -/
structure Storable (contents : List Char) : Prop where
  short : contents.length ≤ 65535
  numbers : ∀ character ∈ contents, 1 ≤ character.toNat ∧ character.toNat ≤ 127 ∧
    character.toNat ≠ 10 ∧ character.toNat ≠ 13 ∧ character.toNat ≠ 34

/-- Code that makes a string of given characters: one of their number, to which the numbers of the
characters are appended in order. -/
def MakesString (contents : List Char) (code : List Instruction) : Prop :=
  ∃ (size : UInt16) (numbers : List UInt16),
    code = .push .constant size :: .call "String.new" 1 ::
      numbers.flatMap (fun number => [.push .constant number, .call "String.appendChar" 2]) ∧
    size.toNat = contents.length ∧
    numbers.map UInt16.toNat = contents.map Char.toNat

/-- A token is the string constant of given characters: it covers them and a quote on each side. -/
structure Quotes (source : String) (token : Token) (contents : List Char) : Prop where
  kind : token.kind = .string
  covers : ∃ before after, source.toList = before ++ '"' :: (contents ++ '"' :: after) ∧
    token.span.lo = Token.byteLength before ∧
    token.span.hi = Token.byteLength before + contents.length + 2

/-- The characters of a string constant are those of ASCII but for NUL, line breaks and the quote.
-/
theorem isStringCharacter_iff {character : Char} :
    Token.isStringCharacter character ↔ 1 ≤ character.toNat ∧ character.toNat ≤ 127 ∧
      character.toNat ≠ 10 ∧ character.toNat ≠ 13 ∧ character.toNat ≠ 34 := by
  have quote : '"'.toNat = 34 := rfl
  have feed : '\n'.toNat = 10 := rfl
  have carriage : '\r'.toNat = 13 := rfl
  have nul : '\x00'.toNat = 0 := rfl
  unfold Token.isStringCharacter
  simp only [ne_eq, ← Char.toNat_inj, quote, feed, carriage, nul]
  omega

/-- The contents of a string constant are characters that may stand in one, and not too many. -/
theorem storable_iff {contents : List Char} :
    Storable contents ↔ contents.length ≤ Token.maxStringLength ∧
      ∀ character ∈ contents, Token.isStringCharacter character := by
  constructor
  · intro storable
    exact ⟨storable.short, fun character member =>
      isStringCharacter_iff.2 (storable.numbers character member)⟩
  · rintro ⟨short, inside⟩
    exact ⟨short, fun character member => isStringCharacter_iff.1 (inside character member)⟩

namespace Storable

variable {contents : List Char}

/-- The contents of a string constant are ASCII. -/
theorem ascii (storable : Storable contents) :
    ∀ character ∈ contents, character.toNat < 128 :=
  fun character member => Nat.lt_succ_of_le (storable.numbers character member).2.1

/-- The contents of a string constant have as many bytes as characters. -/
theorem size (storable : Storable contents) :
    (String.ofList contents).utf8ByteSize = contents.length := by
  rw [← Token.byteLength_eq, Token.byteLength_eq_length storable.ascii]

end Storable

/-- The byte of an ASCII character is its number. -/
theorem utf8EncodeChar_of_ascii {character : Char} (ascii : character.toNat < 128) :
    String.utf8EncodeChar character = [UInt8.ofNat character.toNat] := by
  have low : character.val.toNat ≤ 127 := Nat.le_of_lt_succ ascii
  unfold String.utf8EncodeChar
  rw [if_pos low]
  rfl

/-- As a word it is that number too. -/
theorem toUInt16_of_ascii {character : Char} (ascii : character.toNat < 128) :
    (UInt8.ofNat character.toNat).toUInt16 = UInt16.ofNat character.toNat := by
  have inByte : character.toNat < UInt8.size := Nat.lt_trans ascii (by decide)
  have inWord : character.toNat < UInt16.size := Nat.lt_trans ascii (by decide)
  rw [← UInt16.toNat_inj, UInt8.toNat_toUInt16, UInt8.toNat_ofNat_of_lt' inByte,
    UInt16.toNat_ofNat_of_lt' inWord]

/-- The code of a string constant makes its characters. -/
theorem makesString_stringCode {contents : List Char} (storable : Storable contents) :
    MakesString contents (stringCode (String.ofList contents)) := by
  have short := storable.short
  refine ⟨UInt16.ofNat contents.length,
    contents.map fun character => UInt16.ofNat character.toNat, ?_, ?_, ?_⟩
  · rw [stringCode, storable.size, String.toList_ofList, List.flatMap_map, List.flatMap_assoc]
    congr 2
    refine List.flatMap_congr ?_
    intro character member
    have ascii := storable.ascii character member
    rw [utf8EncodeChar_of_ascii ascii, List.flatMap_singleton, Code.appendCharacter,
      toUInt16_of_ascii ascii]
    rfl
  · exact UInt16.toNat_ofNat_of_lt' (by simp only [UInt16.size]; omega)
  · rw [List.map_map]
    refine List.map_congr_left ?_
    intro character member
    have ascii := storable.ascii character member
    exact UInt16.toNat_ofNat_of_lt' (by simp only [UInt16.size]; omega)

/-! ## Tokens -/

/-- What a term emits that is read from a token, wherever that is. -/
def Emits (source : String) (token : Token) (code : Code) : Prop :=
  ∀ {σ : Type} (depth : Nat) (context : PassContext) (before : PassState σ) (after : TokenStream),
    context.source = source → before.stream.next? = some (token, after) →
      (Pass.term (depth + 1)).run context before = .done code { before with stream := after }

/-- A token that shows a string constant emits its code. -/
theorem emits_of_string {source contents : String} {token : Token}
    (shown : token.terminal? source = some (.string contents)) :
    Emits source token (Code.ofList (stringCode contents)) := by
  rintro σ depth context before after rfl next
  have read : Pass.advance.run context before = .done token { before with stream := after } :=
    Pass.advance_eq_done_iff.2 ⟨next, rfl⟩
  have emitted : (Pass.stringTerm token).run context { before with stream := after } =
      .done (Code.ofList (stringCode contents)) { before with stream := after } :=
    (Pass.stringTerm_eq_done_iff shown).2 ⟨Code.toList_ofList _, rfl⟩
  obtain ⟨kind, span⟩ := token
  obtain rfl : kind = .string := Token.kind_of_terminal? shown
  exact (Pass.run_bind_of_done read).trans emitted

/-- What is said of the token of a string constant: it covers its characters with their quotes, and
emits code that makes them. -/
structure Intact (source : String) (token : Token) (contents : List Char) (code : Code) : Prop where
  storable : Storable contents
  quotes : Quotes source token contents
  emits : Emits source token code
  makes : MakesString contents code.toList

section Tokens

variable {source : String} {before after contents : List Char}

/-- The token that is read from characters between quotes shows them. -/
theorem terminal?_of_quoted (fits : source.utf8ByteSize ≤ Span.maxOffset)
    (shape : source.toList = before ++ '"' :: (contents ++ ['"']) ++ after)
    (storable : Storable contents) :
    (Token.spanning .string before ('"' :: (contents ++ ['"']))).terminal? source =
      some (.string (String.ofList contents)) := by
  have found := Token.contents?_of_quoted fits shape storable.short storable.ascii
  have small : (String.ofList contents).utf8ByteSize ≤ Library.maxStringLength :=
    storable.size ▸ storable.short
  simp only [Token.terminal?, Token.spanning] at found ⊢
  rw [found]
  exact if_pos small

/-- A string constant is two bytes longer than what stands between its quotes. -/
theorem byteLength_quoted (storable : Storable contents) :
    Token.byteLength ('"' :: (contents ++ ['"'])) = contents.length + 2 := by
  have inside := (storable_iff.1 storable).2
  rw [Token.byteLength_eq_length (Token.toNat_of_quoted inside), List.length_cons,
    List.length_append, List.length_singleton]

/-- Such a token stands where the characters do. -/
theorem quotes_of_quoted (shape : source.toList = before ++ '"' :: (contents ++ ['"']) ++ after)
    (storable : Storable contents) :
    Quotes source (Token.spanning .string before ('"' :: (contents ++ ['"']))) contents := by
  have short := storable.short
  have size := byteLength_quoted storable
  refine ⟨rfl, before, after, by simp [shape], rfl, ?_⟩
  rw [Token.spanning, size, Span.hi_ofBounds (by omega) (by simp only [Span.maxLength]; omega)]
  omega

/-- A string constant in a source that fits is intact: its slice is its contents, and so its code
appends them. -/
theorem intact_of_quoted (fits : source.utf8ByteSize ≤ Span.maxOffset)
    (shape : source.toList = before ++ '"' :: (contents ++ ['"']) ++ after)
    (storable : Storable contents) :
    Intact source (Token.spanning .string before ('"' :: (contents ++ ['"']))) contents
      (Code.ofList (stringCode (String.ofList contents))) where
  storable := storable
  quotes := quotes_of_quoted shape storable
  emits := emits_of_string (terminal?_of_quoted fits shape storable)
  makes := by
    rw [Code.toList_ofList]
    exact makesString_stringCode storable

end Tokens

/-! ## Trees -/

/-- Code that holds the codes of some things, one after another, and anything in front of them,
between them and behind them. -/
inductive Holds {α : Type} (Made : α → List Instruction → Prop) : List α → List Instruction → Prop
  | nil (code : List Instruction) : Holds Made [] code
  | cons {item : α} {items : List α} {part rest : List Instruction} (front : List Instruction)
      (made : Made item part) (others : Holds Made items rest) :
      Holds Made (item :: items) (front ++ part ++ rest)

namespace Holds

variable {α β : Type} {Made : α → List Instruction → Prop} {Made' : β → List Instruction → Prop}
  {items others : List α} {code rest : List Instruction}

/-- Code in front does not matter. -/
theorem behind (holds : Holds Made items code) (front : List Instruction) :
    Holds Made items (front ++ code) := by
  cases holds with
  | nil => exact .nil _
  | cons gap made later =>
      rw [← List.append_assoc, ← List.append_assoc]
      exact .cons (front ++ gap) made later

/-- Codes that follow one another hold what each of them holds. -/
theorem append (first : Holds Made items code) (second : Holds Made others rest) :
    Holds Made (items ++ others) (code ++ rest) := by
  induction first with
  | nil code => exact second.behind code
  | cons front made _ inductionHypothesis =>
      rw [List.cons_append, List.append_assoc]
      exact .cons front made inductionHypothesis

/-- What is made of one thing may be made of another. -/
theorem transfer {Same : β → α → Prop} {sources : List β}
    (each : ∀ {source item part}, Same source item → Made item part → Made' source part)
    (holds : Holds Made items code) (same : List.Forall₂ Same sources items) :
    Holds Made' sources code := by
  induction holds generalizing sources with
  | nil code =>
      cases same
      exact .nil code
  | cons front made _ inductionHypothesis =>
      obtain _ | ⟨first, later⟩ := same
      exact .cons front (each first made) (inductionHypothesis later)

end Holds

namespace Grammar

/-- The string constants among terminals. -/
def strings (terminals : List Terminal) : List String :=
  terminals.filterMap fun
    | .string contents => some contents
    | _ => none

/-- The constants in one stretch of terminals come before those in the next. -/
@[simp] theorem strings_append (first second : List Terminal) :
    strings (first ++ second) = strings first ++ strings second :=
  List.filterMap_append

/-- Code that holds the codes of the string constants among terminals. -/
def HoldsStrings (terminals : List Terminal) (code : List Instruction) : Prop :=
  Holds (fun contents part => part = stringCode contents) (strings terminals) code

namespace HoldsStrings

variable {first second : List Terminal} {code rest : List Instruction}

/-- Terminals without a constant ask for no code. -/
theorem silent {terminals : List Terminal} (none : strings terminals = []) :
    HoldsStrings terminals code := by
  rw [HoldsStrings, none]
  exact .nil code

/-- Code holds the constants of two stretches one after the other. -/
theorem append (one : HoldsStrings first code) (two : HoldsStrings second rest) :
    HoldsStrings (first ++ second) (code ++ rest) := by
  rw [HoldsStrings, strings_append]
  exact Holds.append one two

/-- Code behind does not matter. -/
theorem followed (holds : HoldsStrings first code) (back : List Instruction) :
    HoldsStrings first (code ++ back) := by
  have whole := holds.append (silent rfl : HoldsStrings [] back)
  rwa [List.append_nil] at whole

/-- Nor do terminals behind that are no constants. -/
theorem closed {terminals : List Terminal} (holds : HoldsStrings first code)
    (none : strings terminals = []) : HoldsStrings (first ++ terminals) code := by
  have whole := holds.append (silent none : HoldsStrings terminals [])
  rwa [List.append_nil] at whole

/-- The code of a constant is that of its contents. -/
theorem constant (contents : String) :
    HoldsStrings [.string contents] (stringCode contents) := by
  have whole : HoldsStrings [.string contents] ([] ++ stringCode contents ++ []) :=
    .cons [] rfl (.nil [])
  rwa [List.nil_append, List.append_nil] at whole

end HoldsStrings

section Expressions

variable (environment : Environment)

mutual

-- That terminals in front of a part are no constants is seen by computing.

/-- The code of an expression holds its constants, in order. -/
theorem Expression.holdsStrings (tree : Expression) :
    HoldsStrings tree.yield (tree.code environment) := by
  cases tree with
  | mk first others => exact .append first.holdsStrings others.holdsStrings

/-- The code of operands holds their constants; the instruction of an operator comes behind them. -/
theorem Operands.holdsStrings (tree : Operands) :
    HoldsStrings tree.yield (tree.code environment) := by
  cases tree with
  | nil => exact .silent rfl
  | cons operator operand others =>
      exact .append (.followed operand.holdsStrings _) others.holdsStrings

/-- The code of a term holds its constants. -/
theorem Term.holdsStrings (tree : Term) : HoldsStrings tree.yield (tree.code environment) := by
  cases tree with
  | integer | constant | name => exact .silent rfl
  | string contents => exact .constant contents
  | element array index => exact .append (.append (.silent rfl) index.holdsStrings) (.silent rfl)
  | call call => exact call.holdsStrings
  | group inner => exact .closed inner.holdsStrings rfl
  | unary operator operand => exact .followed operand.holdsStrings _

/-- The code of a call holds the constants of its arguments. -/
theorem Call.holdsStrings (tree : Call) : HoldsStrings tree.yield (tree.code environment) := by
  cases tree with
  | own subroutine arguments =>
      exact .append (.append (.silent rfl) arguments.holdsStrings) (.silent rfl)
  | qualified owner subroutine arguments =>
      rw [Call.code]
      cases environment.place? owner with
      | some receiver => exact .append (.append (.silent rfl) arguments.holdsStrings) (.silent rfl)
      | none => exact .append arguments.holdsStrings (.silent rfl)

/-- The code of arguments holds their constants. -/
theorem Arguments.holdsStrings (tree : Arguments) :
    HoldsStrings tree.yield (tree.code environment) := by
  cases tree with
  | nil => exact .silent rfl
  | cons first others => exact .append first.holdsStrings others.holdsStrings_following

/-- The code of arguments behind a first one holds their constants. -/
theorem Arguments.holdsStrings_following (tree : Arguments) :
    HoldsStrings tree.following (tree.code environment) := by
  cases tree with
  | nil => exact .silent rfl
  | cons first others => exact .append first.holdsStrings others.holdsStrings_following

end

end Expressions

section Statements

variable (environment : Environment) (label : Nat → Label)

mutual

/-- The code of a statement holds its constants, the index of an element before the value. -/
theorem Statement.holdsStrings (tree : Statement) (number : Nat) :
    HoldsStrings tree.yield (tree.code environment label number) := by
  cases tree with
  | assign target value =>
      exact .append (value.holdsStrings environment) (.silent rfl)
  | assignElement array index value =>
      refine .append (.append (.append (.append (.silent rfl) ?_) (.silent rfl)) ?_)
        (.silent rfl)
      · exact index.holdsStrings environment
      · exact value.holdsStrings environment
  | choice test body alternative =>
      refine .followed (.append (.append (.append (.append ?_ (.silent rfl)) ?_)
        (.silent rfl)) ?_) _
      · exact test.holdsStrings environment
      · exact body.holdsStrings _
      · exact alternative.holdsStrings _
  | loop test body =>
      refine .append (.append (.append (.append (.silent rfl) ?_) (.silent rfl)) ?_)
        (.silent rfl)
      · exact test.holdsStrings environment
      · exact body.holdsStrings _
  | perform call => exact .append (call.holdsStrings environment) (.silent rfl)
  | «return» value =>
      cases value with
      | none => exact .silent rfl
      | some value => exact .append (value.holdsStrings environment) (.silent rfl)

/-- The code of statements holds their constants. -/
theorem Statements.holdsStrings (tree : Statements) (number : Nat) :
    HoldsStrings tree.yield (tree.code environment label number) := by
  cases tree with
  | nil => exact .silent rfl
  | cons first others => exact .append (first.holdsStrings number) (others.holdsStrings _)

/-- The code of an alternative holds its constants. -/
theorem Alternative.holdsStrings (tree : Alternative) (number : Nat) :
    HoldsStrings tree.yield (tree.code environment label number) := by
  cases tree with
  | absent => exact .silent rfl
  | present body => exact .closed (body.holdsStrings number) rfl

end

end Statements

/-! ## Declarations -/

/-- Where no part has constants, neither have all of them. -/
theorem strings_flatMap {α : Type} {yield : α → List Terminal} {parts : List α}
    (none : ∀ part ∈ parts, strings (yield part) = []) : strings (parts.flatMap yield) = [] := by
  rw [strings, List.filterMap_flatMap]
  exact List.flatMap_eq_nil_iff.2 none

/-- A type is no constant. -/
@[simp] theorem strings_type (type : TypeName) (terminals : List Terminal) :
    strings (type.terminal :: terminals) = strings terminals := by
  cases type <;> rfl

/-- Declarations of variables have no constants. -/
theorem strings_variables (group : Variables) : strings group.yield = [] := by
  rw [Variables.yield_eq, strings_type, strings_append]
  exact List.append_eq_nil_iff.2 ⟨strings_flatMap fun _ _ => rfl, rfl⟩

/-- Parameters have no constants. -/
theorem strings_parameters (parameters : List Parameter) :
    strings (parametersYield parameters) = [] := by
  cases parameters with
  | nil => rfl
  | cons first others =>
      rw [parametersYield, strings_append]
      refine List.append_eq_nil_iff.2 ⟨strings_type .., strings_flatMap fun parameter _ => ?_⟩
      exact strings_type ..

/-- Declarations of local variables have no constants. -/
theorem strings_locals (locals : List Variables) : strings (localsYield locals) = [] :=
  strings_flatMap fun group _ => strings_variables group

section Classes

variable (className : String) (ofClass : List (Declaration ClassStorage)) (label : Nat → Label)

/-- The code of a subroutine holds the constants of its body. -/
theorem Subroutine.holdsStrings (subroutine : Subroutine) (number : Nat) :
    HoldsStrings subroutine.yield (subroutine.code className ofClass label number) := by
  refine .closed (.append (.silent ?_) (subroutine.body.holdsStrings _ label number)) rfl
  have result : strings [.keyword subroutine.kind.word, resultTerminal subroutine.result,
      .name subroutine.name, .mark .leftParen] = [] := by
    cases subroutine.result with
    | none => rfl
    | some type => exact strings_type ..
  rw [strings_append, strings_append, strings_append, result, strings_parameters, strings_locals]
  rfl

/-- The code of subroutines holds their constants, one subroutine behind the other. -/
theorem holdsStrings_subroutines (subroutines : List Subroutine) (number : Nat) :
    HoldsStrings (subroutines.flatMap Subroutine.yield)
      (subroutinesCode className ofClass label number subroutines) := by
  induction subroutines generalizing number with
  | nil => exact .silent rfl
  | cons first others inductionHypothesis =>
      rw [List.flatMap_cons, subroutinesCode]
      exact (first.holdsStrings className ofClass label number).append (inductionHypothesis _)

end Classes

/-- The code of a class holds all its constants, in the order of the source. -/
theorem ClassDeclaration.holdsStrings (tree : ClassDeclaration) (label : Nat → Label)
    (number : Nat) : HoldsStrings tree.yield (tree.code label number) := by
  have inGroups : strings (tree.groups.flatMap ClassVariables.yield) = [] :=
    strings_flatMap fun declared _ => strings_variables declared.group
  have inSubroutines :=
    holdsStrings_subroutines tree.name tree.declarations label tree.subroutines number
  refine .closed ?_ rfl
  unfold HoldsStrings at inSubroutines ⊢
  rw [strings_append, strings_append, inGroups]
  exact inSubroutines

end Grammar

/-! ## Units -/

section Units

variable {source : String} {stream : TokenStream}

/-- All string constants of a text are intact. -/
theorem exists_intact (fits : source.utf8ByteSize ≤ Span.maxOffset)
    (lexed : TokenStream.ofText source = .ok stream) :
    ∀ token ∈ stream.remaining, token.kind = .string → ∃ contents,
      token.terminal? source = some (.string (String.ofList contents)) ∧
      Intact source token contents (Code.ofList (stringCode (String.ofList contents))) := by
  refine TokenStream.forall_of_ofText ?_ lexed
  intro kind before piece after shape _ spells isString
  cases isString
  obtain ⟨contents, rfl, short, inside⟩ := spells
  have storable : Storable contents := storable_iff.2 ⟨short, inside⟩
  exact ⟨contents, terminal?_of_quoted fits shape storable, intact_of_quoted fits shape storable⟩

/-- The string constants among the terminals that tokens show are those of the tokens that are string
constants. -/
theorem forall₂_strings {Same : Token → String → Prop} {tokens : List Token}
    {terminals : List Terminal}
    (shown : tokens.mapM (fun token => token.terminal? source) = some terminals)
    (each : ∀ token ∈ tokens, ∀ contents,
      token.terminal? source = some (.string contents) → Same token contents) :
    List.Forall₂ Same (tokens.filter fun token => token.kind = .string) (strings terminals) := by
  induction tokens generalizing terminals with
  | nil =>
      cases shown
      exact .nil
  | cons token tokens inductionHypothesis =>
      rw [List.mapM_cons] at shown
      obtain ⟨terminal, isTerminal, others⟩ := Option.bind_eq_some_iff.1 shown
      obtain ⟨later, areTerminals, same⟩ := Option.bind_eq_some_iff.1 others
      cases same
      obtain ⟨ofFirst, ofOthers⟩ := List.forall_mem_cons.1 each
      have rest := inductionHypothesis areTerminals ofOthers
      have kind := Token.kind_of_terminal? isTerminal
      cases terminal with
      | string contents =>
          have isString : token.kind = .string := kind
          rw [List.filter_cons, if_pos (decide_eq_true isString)]
          exact .cons (ofFirst contents isTerminal) rest
      | _ =>
          rw [List.filter_cons, if_neg (by simp [kind, Terminal.kind])]
          exact rest

/-- What a string constant emits, as a part of some code. -/
def IsEmitted (source : String) (token : Token) (part : List Instruction) : Prop :=
  ∃ contents code, Intact source token contents code ∧ part = code.toList

/-- The code of a compiled unit holds what its string constants emit, in order. -/
theorem holds_of_compile {σ : Type} [LabelSource σ] {start labels : σ} {unit : String}
    {compiled : CompiledUnit} (fits : source.utf8ByteSize ≤ Span.maxOffset)
    (success : compile start unit source = (.ok compiled, labels)) :
    ∃ stream, TokenStream.ofText source = .ok stream ∧
      Holds (IsEmitted source) (stream.remaining.filter fun token => token.kind = .string)
        compiled.code.toList := by
  obtain ⟨tree, ⟨stream, lexed, shown⟩, _, _, isCode, _⟩ :=
    tree_of_compile (LabelSource.numbering start) fits (LabelSource.numbering_stands start) success
  unfold TokenStream.terminals? at shown
  rw [(TokenStream.start_of_ofText lexed).2] at shown
  have emitted : ∀ token ∈ stream.remaining, ∀ contents,
      token.terminal? source = some (.string contents) →
        IsEmitted source token (stringCode contents) := by
    intro token member contents isString
    obtain ⟨characters, again, intact⟩ :=
      exists_intact fits lexed token member (Token.kind_of_terminal? isString)
    rw [isString] at again
    cases again
    exact ⟨characters, _, intact, (Code.toList_ofList _).symm⟩
  refine ⟨stream, lexed, ?_⟩
  rw [isCode]
  refine (tree.holdsStrings (LabelSource.numbering start).label _).transfer ?_
    (forall₂_strings shown emitted)
  rintro token contents _ isEmitted rfl
  exact isEmitted

end Units

/-- A text of characters between quotes is read as one string constant. -/
theorem ofText_quoted {contents : List Char} (storable : Storable contents) :
    TokenStream.ofText (String.ofList ('"' :: (contents ++ ['"']))) =
      .ok (.ofTokens [Token.spanning .string [] ('"' :: (contents ++ ['"']))]
        (contents.length + 2)) := by
  obtain ⟨short, inside⟩ := storable_iff.1 storable
  have size := byteLength_quoted storable
  have read : Token.lexeme '"' (contents ++ '"' :: []) =
      .ok ⟨some .string, contents.length + 2, []⟩ := by
    rw [Lexing.lexeme_of_string inside, if_neg (Nat.not_lt.2 short)]
  rw [TokenStream.ofText, String.toList_ofList, Lexing.readAll_of_lexeme read, Token.readAll,
    ← Token.byteLength_eq, size, Token.spanning, size]
  rfl

/-- String constants reach the runtime library intact. Every string constant of a source covers
characters that a string can hold, with their quotes, and wherever it is read as a term it emits the
code that makes a string of these characters. The code of a compiled unit holds what its string
constants emit, in their order, and no compilation finds one too long, from whatever source of
labels. Conversely all such characters are, between quotes, one string constant that emits the code
that makes them. -/
theorem strings_reach_runtime {source : String} (fits : source.utf8ByteSize ≤ Span.maxOffset) :
    (∀ {stream : TokenStream}, TokenStream.ofText source = .ok stream →
      ∀ token ∈ stream.remaining, token.kind = .string →
        ∃ contents code, Intact source token contents code) ∧
    (∀ {σ : Type} [LabelSource σ] {start labels : σ} {unit : String} {compiled : CompiledUnit},
      compile start unit source = (.ok compiled, labels) →
        ∃ stream, TokenStream.ofText source = .ok stream ∧
          Holds (IsEmitted source) (stream.remaining.filter fun token => token.kind = .string)
            compiled.code.toList) ∧
    (∀ {σ : Type} [LabelSource σ] (start : σ) (unit : String),
      (compile start unit source).1 ≠ .error (.broken .stringTooLong)) ∧
    ∀ {contents : List Char}, Storable contents →
      ∃ token code, TokenStream.ofText (String.ofList ('"' :: (contents ++ ['"']))) =
          .ok (.ofTokens [token] (contents.length + 2)) ∧
        Intact (String.ofList ('"' :: (contents ++ ['"']))) token contents code := by
  refine ⟨?_, fun success => holds_of_compile fits success, ?_, ?_⟩
  · intro stream lexed token member isString
    obtain ⟨contents, _, intact⟩ := exists_intact fits lexed token member isString
    exact ⟨contents, _, intact⟩
  · intro σ _ start unit broken
    cases breakdown_of_compile fits broken
  · intro contents storable
    have short := storable.short
    have small : (String.ofList ('"' :: (contents ++ ['"']))).utf8ByteSize ≤ Span.maxOffset := by
      rw [← Token.byteLength_eq, byteLength_quoted storable]
      exact Nat.le_trans (Nat.add_le_add_right short 2) (by decide)
    have shape : (String.ofList ('"' :: (contents ++ ['"']))).toList =
        [] ++ '"' :: (contents ++ ['"']) ++ [] := by simp
    exact ⟨_, _, ofText_quoted storable, intact_of_quoted small shape storable⟩

/-- Two string constants behind a comment that is not ASCII, of which one is empty. -/
theorem strings_reach_runtime_of_comment :
    ∃ (source : String) (compiled : CompiledUnit), source.utf8ByteSize ≤ Span.maxOffset ∧
      compile (⟨0⟩ : LabelCounter) "A" source = (.ok compiled, ⟨0⟩) ∧
      compiled.code.toList = [.function "A.f" 0, .push .constant 1, .push .constant 2,
        .call "String.new" 1, .push .constant 126, .call "String.appendChar" 2,
        .push .constant 32, .call "String.appendChar" 2, .command .add, .push .constant 0,
        .call "String.new" 1, .command .sub, .return] ∧
      ∃ stream, TokenStream.ofText source = .ok stream ∧
        Holds (IsEmitted source) (stream.remaining.filter fun token => token.kind = .string)
          compiled.code.toList := by
  let source := "/*é*/class A\x7bfunction int f()\x7breturn (1+\"~ \")-\"\";\x7d\x7d"
  let code : List Instruction := [.function "A.f" 0, .push .constant 1, .push .constant 2,
    .call "String.new" 1, .push .constant 126, .call "String.appendChar" 2, .push .constant 32,
    .call "String.appendChar" 2, .command .add, .push .constant 0, .call "String.new" 1,
    .command .sub, .return]
  have fits : source.utf8ByteSize ≤ Span.maxOffset := by decide +kernel
  have success : compile (⟨0⟩ : LabelCounter) "A" source = (.ok ⟨"A", .ofList code⟩, ⟨0⟩) := by
    decide +kernel
  obtain ⟨_, holds, _⟩ := strings_reach_runtime fits
  exact ⟨source, _, fits, success, Code.toList_ofList _, holds success⟩

end JackCompiler
