import JackCompiler.Compilation.Pass

/-!
# Steps of the pass

The steps that the recognisers of all constructs are made of: reading tokens, counting, looking up
and defining names, drawing labels, and the loops over these. Loops are bounded by a number that
exceeds the number of tokens; since every round but the last reads a token, the bound is never
reached.
-/

namespace JackCompiler

namespace Pass

variable {σ α β : Type}

/-- Repeats `step` from a first value, for as long as it yields a next one. -/
def iterateFor (step : α → Pass σ (α ⊕ β)) : Nat → α → Pass σ β
  | 0, _ => breakOff .boundExceeded
  | rounds + 1, value => do
      match ← step value with
      | .inl next => iterateFor step rounds next
      | .inr result => pure result

/-- Repeats `step` within the bound of the pass. -/
def iterate (step : α → Pass σ (α ⊕ β)) (value : α) : Pass σ β := do
  iterateFor step (← context).bound value

/-! ## Tokens -/

/-- Reads the next token, whatever it is. -/
def advance : Pass σ Token := do
  let current ← state
  match current.stream.next? with
  | some (token, stream) =>
      setState { current with stream }
      pure token
  | none => reject current.stream.endSpan (.grammatical .unexpectedEnd)

/-- Makes the latest token unread. -/
def unread : Pass σ Unit := do
  let current ← state
  match current.stream.pushback? with
  | some stream => setState { current with stream }
  | none => breakOff .nothingToUnread

/-- The next token, which stays unread. -/
def peek? : Pass σ (Option Token) := do
  pure (← state).stream.peek?

/-- Whether there is a next token and its kind satisfies a condition. -/
def nextSatisfies (condition : Token.Kind → Bool) : Pass σ Bool := do
  match ← peek? with
  | some token => pure (condition token.kind)
  | none => pure false

/-- Whether the next token is of a given kind. -/
def nextIs (kind : Token.Kind) : Pass σ Bool :=
  nextSatisfies (· == kind)

/-- Reads the next token if it is of a given kind, and tells whether it was. -/
def take (kind : Token.Kind) : Pass σ Bool := do
  if ← nextIs kind then
    let _ ← advance
    pure true
  else
    pure false

/-- Reads parts as long as the next token satisfies a condition. -/
def whileNext (condition : Token.Kind → Bool) (part : α → Pass σ α) : α → Pass σ α :=
  iterate fun value => do
    if ← nextSatisfies condition then
      pure (.inl (← part value))
    else
      pure (.inr value)

/-- Reads one or more items separated by commas. -/
def separated (item : α → Pass σ α) : α → Pass σ α :=
  iterate fun value => do
    let value ← item value
    if ← take (.punctuation .comma) then
      pure (.inl value)
    else
      pure (.inr value)

/-- Reads the next token, which has to be of a given kind. -/
def expect (kind : Token.Kind) : Pass σ Token := do
  let token ← advance
  if token.kind = kind then
    pure token
  else
    reject token.span (.grammatical (.unexpected kind token.kind))

/-- Reads the next token, which has to be a given mark. -/
def expectMark (mark : Punctuation) : Pass σ Unit := do
  let _ ← expect (.punctuation mark)

/-- Reads the next token, which has to be of one of several kinds. -/
def expectAny (kinds : List Token.Kind) : Pass σ Token := do
  let token ← advance
  if kinds.contains token.kind then
    pure token
  else
    reject token.span (.grammatical (.unexpectedAny kinds token.kind))

/-- A text that a span was to cut out. -/
def required (text? : Option String) : Pass σ String :=
  match text? with
  | some text => pure text
  | none => breakOff .spanOutsideText

/-- The source text of a token. -/
def textOf (token : Token) : Pass σ String := do
  required (token.text? (← context).source)

/-- Reads a name. -/
def name : Pass σ String := do
  let token ← expect .identifier
  textOf token

/-- Reads the type of a variable. -/
def typeName : Pass σ String := do
  let token ← expectAny Token.Kind.variableTypes
  textOf token

/-! ## Counts -/

/-- Rejects the source at the latest token because a count leaves its 16-bit word. -/
def tooMany (items : Countable) : Pass σ α := do
  reject (← state).stream.lastSpan (.limitExceeded items)

/-- The sum of two counts of the given items. -/
def sum (items : Countable) (left right : UInt16) : Pass σ UInt16 :=
  if left.toNat + right.toNat < 65536 then pure (left + right) else tooMany items

/-! ## Names -/

/-- The name of the class. -/
def className : Pass σ String := do
  pure (← state).className

/-- The variable that a name stands for, if any. -/
def lookup? (name : String) : Pass σ (Option Variable) := do
  pure ((← state).scope.resolve? name)

/-- The variable that a name token stands for. -/
def resolve (token : Token) : Pass σ Variable := do
  let name ← textOf token
  match ← lookup? name with
  | some found => pure found
  | none => reject token.span (.unresolvedSymbol name)

/-- Defines a variable of the class. -/
def defineInClass (name type : String) (storage : ClassStorage) : Pass σ Unit := do
  let current ← state
  match current.scope.ofClass.define? name type storage with
  | some (_, ofClass) => setState { current with scope := { current.scope with ofClass } }
  | none => tooMany .classVariables

/-- Defines a variable of the subroutine, counted among the given items. -/
def defineInSubroutine (items : Countable) (name type : String) (storage : SubroutineStorage) :
    Pass σ Unit := do
  let current ← state
  match current.scope.ofSubroutine.define? name type storage with
  | some (_, ofSubroutine) => setState { current with scope := { current.scope with ofSubroutine } }
  | none => tooMany items

/-- Forgets the variables of the subroutine before. -/
def openSubroutine : Pass σ Unit := do
  let current ← state
  setState { current with scope := { current.scope with ofSubroutine := .empty } }

/-! ## Labels -/

/-- Draws the next label. -/
def draw [LabelSource σ] : Pass σ Label := do
  let current ← state
  match LabelSource.draw? current.labels with
  | some (label, labels) =>
      setState { current with labels }
      pure label
  | none => breakOff .labelsExhausted

end Pass

end JackCompiler
