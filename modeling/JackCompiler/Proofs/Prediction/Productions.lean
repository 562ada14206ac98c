import JackCompiler.Proofs.Prediction.Goal

/-!
# Productions and phrases of goals

Which terminals a goal reads, and what it then leaves to be read, is a grammar whose productions are
told apart by their first terminals. It is the class grammar: whatever a production leads to, with
its first terminal in front, is a phrase of the goal, in the sense of the trees of the grammar.
-/

namespace JackCompiler

open Grammar

namespace Prediction

/-! ## Productions -/

/-- The terminals that a goal reads and the goals that take its place, whatever is known of names. -/
inductive Reads : Goal → Terminal → List Goal → Prop
  | kind (terminal : Terminal) : Reads (.kind terminal.kind) terminal []
  | className (text : String) : Reads .className (.name text) []
  | group (storage : ClassStorage) :
      Reads .classBody (.keyword (storageWord storage)) [.variableList (.ofClass storage), .classBody]
  | noGroup {terminal : Terminal} {others : List Goal}
      (reads : Reads .subroutines terminal others) : Reads .classBody terminal others
  | subroutine (kind : SubroutineKind) :
      Reads .subroutines (.keyword kind.word) (Goal.subroutine kind)
  | classEnd : Reads .subroutines (.mark .rightBrace) []
  | returnType (result : Option TypeName) : Reads .returnType (resultTerminal result) []
  | subroutineName (kind : SubroutineKind) (text : String) :
      Reads (.subroutineName kind) (.name text) []
  | variableList (role : Role) (type : TypeName) :
      Reads (.variableList role) type.terminal
        [.variable role type.text, .moreVariables role type.text]
  | variable (role : Role) (type text : String) : Reads (.variable role type) (.name text) []
  | nextVariable (role : Role) (type : String) :
      Reads (.moreVariables role type) (.mark .comma)
        [.variable role type, .moreVariables role type]
  | lastVariable (role : Role) (type : String) :
      Reads (.moreVariables role type) (.mark .semicolon) []
  | noParameters : Reads .parameters (.mark .rightParen) []
  | firstParameter (type : TypeName) :
      Reads .parameters type.terminal [.variable .parameter type.text, .moreParameters]
  | parameter (type : TypeName) :
      Reads .parameter type.terminal [.variable .parameter type.text]
  | nextParameter : Reads .moreParameters (.mark .comma) [.parameter, .moreParameters]
  | lastParameter : Reads .moreParameters (.mark .rightParen) []
  | locals : Reads .body (.keyword .var) [.variableList .local, .body]
  | noLocals {terminal : Terminal} {others : List Goal}
      (reads : Reads .statements terminal others) : Reads .body terminal others
  | assign : Reads .statements (.keyword .let) [.target, .statements]
  | choice : Reads .statements (.keyword .if) (Goal.mark .leftParen :: Goal.expression
      [Goal.mark .rightParen, Goal.mark .leftBrace, .statements, .alternative])
  | loop : Reads .statements (.keyword .while) (Goal.mark .leftParen :: Goal.expression
      [Goal.mark .rightParen, Goal.mark .leftBrace, .statements, .statements])
  | perform : Reads .statements (.keyword .do) [.call, Goal.mark .semicolon, .statements]
  | return : Reads .statements (.keyword .return) [.result, .statements]
  | blockEnd : Reads .statements (.mark .rightBrace) []
  | present : Reads .alternative (.keyword .else) [Goal.mark .leftBrace, .statements, .statements]
  | absent {terminal : Terminal} {others : List Goal}
      (reads : Reads .statements terminal others) : Reads .alternative terminal others
  | target (text : String) : Reads .target (.name text) [.assignment]
  | element : Reads .assignment (.mark .leftBracket) (Goal.expression
      (Goal.mark .rightBracket :: Goal.mark .equals :: Goal.expression [Goal.mark .semicolon]))
  | value : Reads .assignment (.mark .equals) (Goal.expression [Goal.mark .semicolon])
  | noResult : Reads .result (.mark .semicolon) []
  | result {terminal : Terminal} {others : List Goal} (reads : Reads .term terminal others) :
      Reads .result terminal (others ++ [.operands, Goal.mark .semicolon])
  | integer (value : UInt16) : Reads .term (.integer value) []
  | string (contents : String) : Reads .term (.string contents) []
  | constant (value : KeywordConstant) : Reads .term (.keyword value.word) []
  | name (text : String) : Reads .term (.name text) [.afterName text]
  | inner : Reads .term (.mark .leftParen) (Goal.expression [Goal.mark .rightParen])
  | unary (operator : UnaryOperator) : Reads .term (.mark operator.mark) [.term]
  | operator (operator : BinaryOperator) :
      Reads .operands (.mark operator.mark) (Goal.expression [])
  | index (name : String) : Reads (.afterName name) (.mark .leftBracket)
      (Goal.expression [Goal.mark .rightBracket])
  | called {name : String} {terminal : Terminal} {others : List Goal}
      (reads : Reads (.afterCaller name) terminal others) : Reads (.afterName name) terminal others
  | call (text : String) : Reads .call (.name text) [.afterCaller text]
  | own (name : String) : Reads (.afterCaller name) (.mark .leftParen) [.arguments true]
  | qualified (name : String) (receiver : Bool) :
      Reads (.afterCaller name) (.mark .dot)
        [.kind .identifier, Goal.mark .leftParen, .arguments receiver]
  | noArguments (receiver : Bool) : Reads (.arguments receiver) (.mark .rightParen) []
  | firstArgument {terminal : Terminal} {others : List Goal} (receiver : Bool)
      (reads : Reads .term terminal others) :
      Reads (.arguments receiver) terminal (others ++ [.operands, .moreArguments 0 receiver])
  | nextArgument (number : Nat) (receiver : Bool) :
      Reads (.moreArguments number receiver) (.mark .comma)
        (Goal.expression [.moreArguments (number + 1) receiver])
  | lastArgument (number : Nat) (receiver : Bool) :
      Reads (.moreArguments number receiver) (.mark .rightParen) []

/-! ## Refusals -/

/-- The ways of saying that a kind of token is not among those that can be read. -/
inductive Mismatch : (Token.Kind → SyntaxError) → Prop
  | one (expected : Token.Kind) : Mismatch (.unexpected expected)
  | any (expected : List Token.Kind) : Mismatch (.unexpectedAny expected)
  | inExpression : Mismatch .unexpectedInExpression

/-- What follows a name does not make it the first name of a call. -/
def NotCalled (next : Option Terminal) : Prop :=
  next ≠ some (.mark .leftParen) ∧ next ≠ some (.mark .dot)

/-- Why a goal refuses the next terminal, or one before it by a number. -/
inductive Refuses (names : Names) : Goal → Option Terminal → Nat → ErrorKind → Prop
  | unexpected (goal : Goal) (next : Option Terminal) {error : Token.Kind → SyntaxError}
      (mismatch : Mismatch error) : Refuses names goal next 0 (unexpected next error)
  | full (goal : Goal) (terminal : Terminal) (items : Countable) :
      Refuses names goal (some terminal) 0 (.limitExceeded items)
  | tooMany (number : Nat) (receiver : Bool) (next : Option Terminal) :
      Refuses names (.moreArguments number receiver) next 1 (.limitExceeded .arguments)
  | target {text : String} (unknown : ¬(names.environment.place? text).isSome) :
      Refuses names .target (some (.name text)) 0 (.unresolvedSymbol text)
  | afterName {name : String} {next : Option Terminal}
      (unknown : ¬(names.environment.place? name).isSome) (notCalled : NotCalled next) :
      Refuses names (.afterName name) next 1 (.unresolvedSymbol name)

/-- Whether a goal accounts for a reaction to the next terminal: it reads by a production, refuses
for a reason, or is one of those that need not read. -/
def Reaction.Sound (names : Names) (goal : Goal) (next : Option Terminal) : Reaction → Prop
  | leave => goal = .operands ∨ ∃ name, goal = .afterName name
  | read others _ => ∃ terminal, next = some terminal ∧ Reads goal terminal others
  | refuse back error => Refuses names goal next back error

section Reactions

variable {goal : Goal} {names : Names} {next : Option Terminal} {behind : List Goal}

/-- Another kind than those sought is a reason to refuse. -/
theorem sound_unexpected {error : Token.Kind → SyntaxError} (mismatch : Mismatch error) :
    (Reaction.unexpected next error).Sound names goal next := .unexpected goal next mismatch

/-- A kind that is sought is read where every terminal of the kind is. -/
theorem sound_expect {kind : Token.Kind}
    (reads : ∀ terminal : Terminal, terminal.kind = kind → Reads goal terminal behind) :
    (Reaction.expect kind behind names next).Sound names goal next := by
  unfold Reaction.expect
  split
  · next same =>
      obtain ⟨terminal, rfl, isKind⟩ := Option.map_eq_some_iff.1 same
      exact ⟨terminal, rfl, reads terminal isKind⟩
  · exact sound_unexpected (.one _)

/-- A mark that is sought is read where the mark is. -/
theorem sound_expectMark {sign : Punctuation} (reads : Reads goal (.mark sign) behind) :
    (Reaction.expect (.punctuation sign) behind names next).Sound names goal next :=
  sound_expect fun _ same => Terminal.eq_mark_of_kind same ▸ reads

/-- A name that is sought is reacted to as its text is. -/
theorem sound_expectName {react : String → Reaction}
    (reacts : ∀ text, (react text).Sound names goal (some (.name text))) :
    (Reaction.expectName next react).Sound names goal next := by
  unfold Reaction.expectName
  split
  · exact reacts _
  · exact sound_unexpected (.one _)

/-- A type that is sought is read whichever type it is. -/
theorem sound_expectType {goals : String → List Goal}
    (reads : ∀ type : TypeName, Reads goal type.terminal (goals type.text)) :
    (Reaction.expectType next goals names).Sound names goal next := by
  unfold Reaction.expectType
  split
  · exact ⟨_, rfl, reads .int⟩
  · exact ⟨_, rfl, reads .char⟩
  · exact ⟨_, rfl, reads .boolean⟩
  · exact ⟨_, rfl, reads (.named _)⟩
  · exact sound_unexpected (.any _)

/-- A term is read by a production of terms, with something else behind it. -/
theorem sound_reactTerm
    (reads : ∀ terminal others, Reads .term terminal others →
      Reads goal terminal (others ++ behind)) :
    (Goal.reactTerm names behind next).Sound names goal next := by
  rcases next with _ | terminal
  · exact sound_unexpected .inExpression
  · cases terminal with
    | integer value => exact ⟨_, rfl, reads _ _ (.integer value)⟩
    | string contents => exact ⟨_, rfl, reads _ _ (.string contents)⟩
    | name text => exact ⟨_, rfl, reads _ _ (.name text)⟩
    | mark sign =>
        cases sign with
        | leftParen => exact ⟨_, rfl, reads _ _ .inner⟩
        | minus => exact ⟨_, rfl, reads _ _ (.unary .neg)⟩
        | tilde => exact ⟨_, rfl, reads _ _ (.unary .not)⟩
        | _ => exact sound_unexpected .inExpression
    | keyword word =>
        cases word with
        | true => exact ⟨_, rfl, reads _ _ (.constant .true)⟩
        | false => exact ⟨_, rfl, reads _ _ (.constant .false)⟩
        | null => exact ⟨_, rfl, reads _ _ (.constant .null)⟩
        | this => exact ⟨_, rfl, reads _ _ (.constant .this)⟩
        | _ => exact sound_unexpected .inExpression

/-- What is behind the first name of a call is read by a production of calls. -/
theorem sound_reactCaller {name : String}
    (reads : ∀ terminal others, Reads (.afterCaller name) terminal others →
      Reads goal terminal others) :
    (Goal.reactCaller names name next).Sound names goal next := by
  unfold Goal.reactCaller
  split
  · exact ⟨_, rfl, reads _ _ (.qualified name _)⟩
  · exact sound_expectMark (reads _ _ (.own name))

/-- A statement is read by a production of statements. -/
theorem sound_reactStatements
    (reads : ∀ terminal others, Reads .statements terminal others → Reads goal terminal others) :
    (Goal.reactStatements names next).Sound names goal next := by
  unfold Goal.reactStatements
  split
  · exact ⟨_, rfl, reads _ _ .assign⟩
  · exact ⟨_, rfl, reads _ _ .choice⟩
  · exact ⟨_, rfl, reads _ _ .loop⟩
  · exact ⟨_, rfl, reads _ _ .perform⟩
  · exact ⟨_, rfl, reads _ _ .return⟩
  · exact sound_expectMark (reads _ _ .blockEnd)

/-- A subroutine is read by a production of subroutines. -/
theorem sound_reactSubroutines
    (reads : ∀ terminal others, Reads .subroutines terminal others →
      Reads goal terminal others) :
    (Goal.reactSubroutines names next).Sound names goal next := by
  unfold Goal.reactSubroutines
  split
  · exact ⟨_, rfl, reads _ _ (.subroutine .constructor)⟩
  · exact ⟨_, rfl, reads _ _ (.subroutine .function)⟩
  · exact ⟨_, rfl, reads _ _ (.subroutine .method)⟩
  · exact sound_expectMark (reads _ _ .classEnd)

/-- Further arguments are read as long as there may be more of them. -/
theorem sound_reactArgument (number : Nat) (receiver : Bool) :
    (Goal.reactArgument names number receiver next).Sound names (.moreArguments number receiver)
      next := by
  unfold Goal.reactArgument
  split
  · exact .tooMany number receiver next
  · split
    · exact ⟨_, rfl, .nextArgument number receiver⟩
    · unfold Goal.reactClosing
      split
      · split
        · exact .full _ _ _
        · exact ⟨_, rfl, .lastArgument number receiver⟩
      · exact sound_unexpected (.one _)

/-- Goals account for all their reactions. -/
theorem sound_react (goal : Goal) : (goal.react names next).Sound names goal next := by
  unfold Goal.react
  cases goal with
  | kind sought => exact sound_expect fun terminal same => same ▸ .kind terminal
  | className => exact sound_expectName fun text => ⟨_, rfl, .className text⟩
  | classBody =>
      dsimp only
      split
      · exact ⟨_, rfl, .group .static⟩
      · exact ⟨_, rfl, .group .field⟩
      · exact sound_reactSubroutines fun _ _ => .noGroup
  | subroutines => exact sound_reactSubroutines fun _ _ reads => reads
  | returnType =>
      dsimp only
      split
      · exact ⟨_, rfl, .returnType none⟩
      · exact ⟨_, rfl, .returnType (some .int)⟩
      · exact ⟨_, rfl, .returnType (some .char)⟩
      · exact ⟨_, rfl, .returnType (some .boolean)⟩
      · exact ⟨_, rfl, .returnType (some (.named _))⟩
      · exact sound_unexpected (.any _)
  | subroutineName entered => exact sound_expectName fun text => ⟨_, rfl, .subroutineName _ text⟩
  | variableList role => exact sound_expectType (.variableList role)
  | «variable» role type =>
      refine sound_expectName fun text => ?_
      split
      · exact ⟨_, rfl, .variable role type text⟩
      · exact .full _ _ _
  | moreVariables role type =>
      dsimp only
      split
      · exact ⟨_, rfl, .nextVariable role type⟩
      · exact sound_expectMark (.lastVariable role type)
  | parameters =>
      dsimp only
      split
      · exact ⟨_, rfl, .noParameters⟩
      · exact sound_expectType .firstParameter
  | parameter => exact sound_expectType .parameter
  | moreParameters =>
      dsimp only
      split
      · exact ⟨_, rfl, .nextParameter⟩
      · exact sound_expectMark .lastParameter
  | body =>
      dsimp only
      split
      · exact ⟨_, rfl, .locals⟩
      · exact sound_reactStatements fun _ _ => .noLocals
  | statements => exact sound_reactStatements fun _ _ reads => reads
  | alternative =>
      dsimp only
      split
      · exact ⟨_, rfl, .present⟩
      · exact sound_reactStatements fun _ _ => .absent
  | target =>
      refine sound_expectName fun text => ?_
      split
      · exact ⟨_, rfl, .target text⟩
      · next unknown => exact .target unknown
  | assignment =>
      dsimp only
      split
      · exact ⟨_, rfl, .element⟩
      · exact sound_expectMark .value
  | result =>
      dsimp only
      split
      · exact ⟨_, rfl, .noResult⟩
      · exact sound_reactTerm fun _ _ => .result
  | term => exact sound_reactTerm fun _ others reads => (List.append_nil others).symm ▸ reads
  | operands =>
      dsimp only
      split
      · next sign =>
          split
          · next isOperator =>
              obtain ⟨operator, found⟩ := Option.isSome_iff_exists.1 isOperator
              cases BinaryOperator.ofKind?_eq_some_iff.1 found
              exact ⟨_, rfl, .operator operator⟩
          · exact .inl rfl
      · exact .inl rfl
  | afterName name =>
      dsimp only
      split
      · exact sound_reactCaller fun _ _ => .called
      · exact sound_reactCaller fun _ _ => .called
      · next notOpened notQualified =>
          split
          · split
            · exact ⟨_, rfl, .index name⟩
            · exact .inr ⟨name, rfl⟩
          · next unknown => exact .afterName unknown ⟨notOpened, notQualified⟩
  | call => exact sound_expectName fun text => ⟨_, rfl, .call text⟩
  | afterCaller name => exact sound_reactCaller fun _ _ reads => reads
  | arguments receiver =>
      dsimp only
      split
      · exact ⟨_, rfl, .noArguments receiver⟩
      · exact sound_reactTerm fun _ _ => .firstArgument receiver
  | moreArguments number receiver => exact sound_reactArgument number receiver

end Reactions

/-! ## Phrases -/

/-- The phrases that meet a goal, by the trees of the grammar. -/
def Phrase : Goal → List Terminal → Prop
  | .kind kind, phrase => ∃ terminal : Terminal, terminal.kind = kind ∧ phrase = [terminal]
  | .className, phrase => ∃ text, phrase = [.name text]
  | .classBody, phrase => ∃ (groups : List ClassVariables) (subroutines : List Subroutine),
      phrase = groups.flatMap ClassVariables.yield ++ subroutines.flatMap Subroutine.yield ++
        [.mark .rightBrace]
  | .subroutines, phrase => ∃ subroutines : List Subroutine,
      phrase = subroutines.flatMap Subroutine.yield ++ [.mark .rightBrace]
  | .returnType, phrase => ∃ result, phrase = [resultTerminal result]
  | .subroutineName _, phrase => ∃ text, phrase = [.name text]
  | .variableList _, phrase => ∃ group : Variables, phrase = group.yield
  | .variable _ _, phrase => ∃ text, phrase = [.name text]
  | .moreVariables _ _, phrase => ∃ names : List String,
      phrase = names.flatMap (fun name => [.mark .comma, .name name]) ++ [.mark .semicolon]
  | .parameters, phrase => ∃ parameters : List Parameter,
      phrase = parametersYield parameters ++ [.mark .rightParen]
  | .parameter, phrase => ∃ parameter : Parameter, phrase = parameter.yield
  | .moreParameters, phrase => ∃ parameters : List Parameter,
      phrase = parameters.flatMap (fun parameter => .mark .comma :: parameter.yield) ++
        [.mark .rightParen]
  | .body, phrase => ∃ (locals : List Variables) (statements : Statements),
      phrase = localsYield locals ++ statements.yield ++ [.mark .rightBrace]
  | .statements, phrase => ∃ statements : Statements,
      phrase = statements.yield ++ [.mark .rightBrace]
  | .alternative, phrase => ∃ (alternative : Alternative) (statements : Statements),
      phrase = alternative.yield ++ statements.yield ++ [.mark .rightBrace]
  | .target, phrase => ∃ statement : Statement, statement.yield = .keyword .let :: phrase
  | .assignment, phrase => ∀ target, ∃ statement : Statement,
      statement.yield = .keyword .let :: .name target :: phrase
  | .result, phrase => ∃ value, (Statement.return value).yield = .keyword .return :: phrase
  | .term, phrase => ∃ term : Term, phrase = term.yield
  | .operands, phrase => ∃ operands : Operands, phrase = operands.yield
  | .afterName name, phrase => ∃ term : Term, term.yield = .name name :: phrase
  | .call, phrase => ∃ call : Call, phrase = call.yield
  | .afterCaller name, phrase => ∃ call : Call, call.yield = .name name :: phrase
  | .arguments _, phrase => ∃ arguments : Arguments,
      phrase = arguments.yield ++ [.mark .rightParen]
  | .moreArguments _ _, phrase => ∃ arguments : Arguments,
      phrase = arguments.following ++ [.mark .rightParen]

/-- The phrases that meet goals one after another. -/
def Phrases : List Goal → List Terminal → Prop
  | [], phrase => phrase = []
  | goal :: goals, phrase => ∃ first rest, Phrase goal first ∧ Phrases goals rest ∧
      phrase = first ++ rest

section Phrases

variable {goals others : List Goal} {phrase rest : List Terminal}

/-- Phrases of goals go on with phrases of further goals. -/
theorem Phrases.append (first : Phrases goals phrase) (second : Phrases others rest) :
    Phrases (goals ++ others) (phrase ++ rest) := by
  induction goals generalizing phrase with
  | nil =>
      cases first
      exact second
  | cons goal goals inductionHypothesis =>
      obtain ⟨left, right, isFirst, isRest, rfl⟩ := first
      exact ⟨left, right ++ rest, isFirst, inductionHypothesis isRest, List.append_assoc ..⟩

/-- A phrase of goals and further ones is a phrase of the first ones and one of the others. -/
theorem phrases_append_iff : Phrases (goals ++ others) phrase ↔
    ∃ first rest, Phrases goals first ∧ Phrases others rest ∧ phrase = first ++ rest := by
  constructor
  · intro whole
    induction goals generalizing phrase with
    | nil => exact ⟨[], phrase, rfl, whole, rfl⟩
    | cons goal goals inductionHypothesis =>
        obtain ⟨left, right, isFirst, isRest, rfl⟩ := whole
        obtain ⟨first, rest, isGoals, isOthers, rfl⟩ := inductionHypothesis isRest
        exact ⟨left ++ first, rest, ⟨left, first, isFirst, isGoals, rfl⟩, isOthers,
          (List.append_assoc ..).symm⟩
  · rintro ⟨first, rest, isFirst, isRest, rfl⟩
    exact isFirst.append isRest

/-- A phrase of one goal is what meets it. -/
theorem phrases_singleton_iff {goal : Goal} : Phrases [goal] phrase ↔ Phrase goal phrase := by
  constructor
  · rintro ⟨first, _, isPhrase, rfl, rfl⟩
    rwa [List.append_nil]
  · intro isPhrase
    exact ⟨phrase, [], isPhrase, rfl, (List.append_nil _).symm⟩

/-- A mark that is sought begins the phrase. -/
theorem phrases_mark_iff {sign : Punctuation} :
    Phrases (Goal.mark sign :: goals) phrase ↔
      ∃ rest, Phrases goals rest ∧ phrase = .mark sign :: rest := by
  constructor
  · rintro ⟨_, rest, ⟨terminal, same, rfl⟩, isRest, rfl⟩
    cases Terminal.eq_mark_of_kind same
    exact ⟨rest, isRest, rfl⟩
  · rintro ⟨rest, isRest, rfl⟩
    exact ⟨[.mark sign], rest, ⟨.mark sign, rfl, rfl⟩, isRest, rfl⟩

/-- Where an expression is sought, the phrase begins with one. -/
theorem phrases_expression_iff :
    Phrases (Goal.expression goals) phrase ↔
      ∃ (expression : Expression) (rest : List Terminal),
        Phrases goals rest ∧ phrase = expression.yield ++ rest := by
  constructor
  · rintro ⟨_, _, ⟨term, rfl⟩, ⟨_, rest, ⟨operands, rfl⟩, isRest, rfl⟩, rfl⟩
    exact ⟨.mk term operands, rest, isRest, (List.append_assoc ..).symm⟩
  · rintro ⟨⟨term, operands⟩, rest, isRest, rfl⟩
    exact ⟨_, _, ⟨term, rfl⟩, ⟨_, rest, ⟨operands, rfl⟩, isRest, rfl⟩, List.append_assoc ..⟩

/-- A block is its statements in braces. -/
theorem phrases_block_iff :
    Phrases (Goal.mark .leftBrace :: .statements :: goals) phrase ↔
      ∃ (body : Statements) (rest : List Terminal), Phrases goals rest ∧
        phrase = .mark .leftBrace :: (body.yield ++ .mark .rightBrace :: rest) := by
  constructor
  · intro whole
    obtain ⟨_, ⟨_, rest, ⟨body, rfl⟩, isRest, rfl⟩, rfl⟩ := phrases_mark_iff.1 whole
    exact ⟨body, rest, isRest, by simp⟩
  · rintro ⟨body, rest, isRest, rfl⟩
    exact phrases_mark_iff.2 ⟨_, ⟨_, rest, ⟨body, rfl⟩, isRest, rfl⟩, by simp⟩

/-- The test of a choice or of a loop is an expression in parentheses. -/
theorem phrases_test_iff :
    Phrases (Goal.mark .leftParen :: Goal.expression (Goal.mark .rightParen :: goals)) phrase ↔
      ∃ (test : Expression) (rest : List Terminal), Phrases goals rest ∧
        phrase = .mark .leftParen :: (test.yield ++ .mark .rightParen :: rest) := by
  constructor
  · intro whole
    obtain ⟨_, inside, rfl⟩ := phrases_mark_iff.1 whole
    obtain ⟨test, _, behind, rfl⟩ := phrases_expression_iff.1 inside
    obtain ⟨rest, isRest, rfl⟩ := phrases_mark_iff.1 behind
    exact ⟨test, rest, isRest, rfl⟩
  · rintro ⟨test, rest, isRest, rfl⟩
    exact phrases_mark_iff.2
      ⟨_, phrases_expression_iff.2 ⟨test, _, phrases_mark_iff.2 ⟨rest, isRest, rfl⟩, rfl⟩, rfl⟩

/-- Where a terminal begins a term, the operands behind the term make it an expression. -/
theorem Phrases.expression_of_term {terminal : Terminal}
    (term : ∀ {phrase}, Phrases others phrase → Phrase .term (terminal :: phrase))
    (behind : Phrases (others ++ .operands :: goals) phrase) :
    ∃ (expression : Expression) (rest : List Terminal),
      Phrases goals rest ∧ terminal :: phrase = expression.yield ++ rest := by
  obtain ⟨first, _, isFirst, ⟨_, rest, ⟨operands, rfl⟩, isRest, rfl⟩, rfl⟩ :=
    phrases_append_iff.1 behind
  obtain ⟨term, shape⟩ := term isFirst
  exact ⟨.mk term operands, rest, isRest, by simp [Expression.yield, ← shape]⟩

end Phrases

/-! ## Phrases of declarations -/

section Declarations

variable {phrase : List Terminal}

/-- A group of class variables goes before the groups and the subroutines behind it. -/
theorem phrase_group {storage : ClassStorage}
    (behind : Phrases [.variableList (.ofClass storage), .classBody] phrase) :
    Phrase .classBody (.keyword (storageWord storage) :: phrase) := by
  obtain ⟨_, _, ⟨group, rfl⟩, after, rfl⟩ := behind
  obtain ⟨groups, subroutines, rfl⟩ := phrases_singleton_iff.1 after
  exact ⟨⟨storage, group⟩ :: groups, subroutines, by simp [ClassVariables.yield]⟩

/-- A subroutine goes before the subroutines behind it. -/
theorem phrase_subroutine {kind : SubroutineKind}
    (behind : Phrases (Goal.subroutine kind) phrase) :
    Phrase .subroutines (.keyword kind.word :: phrase) := by
  obtain ⟨_, _, ⟨result, rfl⟩, ⟨_, _, ⟨name, rfl⟩, afterName, rfl⟩, rfl⟩ := behind
  obtain ⟨_, ⟨_, _, ⟨parameters, rfl⟩, afterParameters, rfl⟩, rfl⟩ := phrases_mark_iff.1 afterName
  obtain ⟨_, ⟨_, _, ⟨locals, statements, rfl⟩, afterBody, rfl⟩, rfl⟩ :=
    phrases_mark_iff.1 afterParameters
  obtain ⟨subroutines, rfl⟩ := phrases_singleton_iff.1 afterBody
  exact ⟨⟨kind, result, name, parameters, locals, statements⟩ :: subroutines,
    by simp [Subroutine.yield]⟩

/-- A type goes before the names of a group. -/
theorem phrase_variableList {role : Role} {type : TypeName}
    (behind : Phrases [.variable role type.text, .moreVariables role type.text] phrase) :
    Phrase (.variableList role) (type.terminal :: phrase) := by
  obtain ⟨_, _, ⟨name, rfl⟩, after, rfl⟩ := behind
  obtain ⟨names, rfl⟩ := phrases_singleton_iff.1 after
  exact ⟨⟨type, name, names⟩, rfl⟩

/-- A comma goes before one more name of a group. -/
theorem phrase_nextVariable {role : Role} {type : String}
    (behind : Phrases [.variable role type, .moreVariables role type] phrase) :
    Phrase (.moreVariables role type) (.mark .comma :: phrase) := by
  obtain ⟨_, _, ⟨name, rfl⟩, after, rfl⟩ := behind
  obtain ⟨names, rfl⟩ := phrases_singleton_iff.1 after
  exact ⟨name :: names, rfl⟩

/-- A type goes before the name of the first parameter. -/
theorem phrase_firstParameter {type : TypeName}
    (behind : Phrases [.variable .parameter type.text, .moreParameters] phrase) :
    Phrase .parameters (type.terminal :: phrase) := by
  obtain ⟨_, _, ⟨name, rfl⟩, after, rfl⟩ := behind
  obtain ⟨parameters, rfl⟩ := phrases_singleton_iff.1 after
  exact ⟨⟨type, name⟩ :: parameters, rfl⟩

/-- A comma goes before one more parameter. -/
theorem phrase_nextParameter (behind : Phrases [.parameter, .moreParameters] phrase) :
    Phrase .moreParameters (.mark .comma :: phrase) := by
  obtain ⟨_, _, ⟨parameter, rfl⟩, after, rfl⟩ := behind
  obtain ⟨parameters, rfl⟩ := phrases_singleton_iff.1 after
  exact ⟨parameter :: parameters, rfl⟩

/-- A group of local variables goes before the rest of its body. -/
theorem phrase_locals (behind : Phrases [.variableList .local, .body] phrase) :
    Phrase .body (.keyword .var :: phrase) := by
  obtain ⟨_, _, ⟨group, rfl⟩, after, rfl⟩ := behind
  obtain ⟨locals, statements, rfl⟩ := phrases_singleton_iff.1 after
  exact ⟨group :: locals, statements, by simp [localsYield]⟩

end Declarations

/-! ## Phrases of statements -/

section Statements

variable {phrase : List Terminal}

/-- A statement goes before the statements behind it. -/
theorem phrase_statement (statement : Statement) (behind : Phrases [.statements] phrase) :
    Phrase .statements (statement.yield ++ phrase) := by
  obtain ⟨statements, rfl⟩ := phrases_singleton_iff.1 behind
  exact ⟨.cons statement statements, by simp [Statements.yield]⟩

/-- An assignment is its keyword and what meets the goal of its target. -/
theorem phrase_assign (behind : Phrases [.target, .statements] phrase) :
    Phrase .statements (.keyword .let :: phrase) := by
  obtain ⟨_, _, ⟨statement, shape⟩, after, rfl⟩ := behind
  simpa [shape] using phrase_statement statement after

/-- A choice is its keyword, its test, its body and the alternative. -/
theorem phrase_choice (behind : Phrases (Goal.mark .leftParen :: Goal.expression
    [Goal.mark .rightParen, Goal.mark .leftBrace, .statements, .alternative]) phrase) :
    Phrase .statements (.keyword .if :: phrase) := by
  obtain ⟨test, _, afterTest, rfl⟩ := phrases_test_iff.1 behind
  obtain ⟨body, _, afterBody, rfl⟩ := phrases_block_iff.1 afterTest
  obtain ⟨alternative, statements, rfl⟩ := phrases_singleton_iff.1 afterBody
  exact ⟨.cons (.choice test body alternative) statements,
    by simp [Statements.yield, Statement.yield]⟩

/-- A loop is its keyword, its test and its body. -/
theorem phrase_loop (behind : Phrases (Goal.mark .leftParen :: Goal.expression
    [Goal.mark .rightParen, Goal.mark .leftBrace, .statements, .statements]) phrase) :
    Phrase .statements (.keyword .while :: phrase) := by
  obtain ⟨test, _, afterTest, rfl⟩ := phrases_test_iff.1 behind
  obtain ⟨body, _, afterBody, rfl⟩ := phrases_block_iff.1 afterTest
  simpa [Statement.yield] using phrase_statement (.loop test body) afterBody

/-- A call as a statement is its keyword, the call and a semicolon. -/
theorem phrase_perform (behind : Phrases [.call, Goal.mark .semicolon, .statements] phrase) :
    Phrase .statements (.keyword .do :: phrase) := by
  obtain ⟨_, _, ⟨call, rfl⟩, afterCall, rfl⟩ := behind
  obtain ⟨_, after, rfl⟩ := phrases_mark_iff.1 afterCall
  simpa [Statement.yield] using phrase_statement (.perform call) after

/-- A return is its keyword and what meets the goal of its value. -/
theorem phrase_return (behind : Phrases [.result, .statements] phrase) :
    Phrase .statements (.keyword .return :: phrase) := by
  obtain ⟨_, _, ⟨value, shape⟩, after, rfl⟩ := behind
  simpa [shape] using phrase_statement (.return value) after

/-- The block of an alternative goes before the statements behind the choice. -/
theorem phrase_present
    (behind : Phrases [Goal.mark .leftBrace, .statements, .statements] phrase) :
    Phrase .alternative (.keyword .else :: phrase) := by
  obtain ⟨body, _, after, rfl⟩ := phrases_block_iff.1 behind
  obtain ⟨statements, rfl⟩ := phrases_singleton_iff.1 after
  exact ⟨.present body, statements, by simp [Alternative.yield]⟩

/-- The index of an element goes before the value that is assigned to the element. -/
theorem phrase_element (behind : Phrases (Goal.expression
    (Goal.mark .rightBracket :: Goal.mark .equals :: Goal.expression [Goal.mark .semicolon]))
    phrase) : Phrase .assignment (.mark .leftBracket :: phrase) := by
  obtain ⟨index, _, afterIndex, rfl⟩ := phrases_expression_iff.1 behind
  obtain ⟨_, afterBracket, rfl⟩ := phrases_mark_iff.1 afterIndex
  obtain ⟨_, afterEquals, rfl⟩ := phrases_mark_iff.1 afterBracket
  obtain ⟨value, _, afterValue, rfl⟩ := phrases_expression_iff.1 afterEquals
  obtain ⟨_, rfl, rfl⟩ := phrases_mark_iff.1 afterValue
  exact fun target => ⟨.assignElement target index value, by simp [Statement.yield]⟩

/-- The value that is assigned is between an equals sign and a semicolon. -/
theorem phrase_value (behind : Phrases (Goal.expression [Goal.mark .semicolon]) phrase) :
    Phrase .assignment (.mark .equals :: phrase) := by
  obtain ⟨value, _, after, rfl⟩ := phrases_expression_iff.1 behind
  obtain ⟨_, rfl, rfl⟩ := phrases_mark_iff.1 after
  exact fun target => ⟨.assign target value, by simp [Statement.yield]⟩

/-- A value to return is a term with operands and a semicolon behind it. -/
theorem phrase_result {terminal : Terminal} {others : List Goal}
    (term : ∀ {phrase}, Phrases others phrase → Phrase .term (terminal :: phrase))
    (behind : Phrases (others ++ [.operands, Goal.mark .semicolon]) phrase) :
    Phrase .result (terminal :: phrase) := by
  obtain ⟨value, _, after, shape⟩ := behind.expression_of_term term
  obtain ⟨_, rfl, rfl⟩ := phrases_mark_iff.1 after
  exact ⟨some value, by simp [Statement.yield, shape]⟩

end Statements

/-! ## Phrases of expressions -/

section Expressions

variable {phrase : List Terminal} {name : String}

/-- A parenthesis goes before the expression that it encloses. -/
theorem phrase_inner (behind : Phrases (Goal.expression [Goal.mark .rightParen]) phrase) :
    Phrase .term (.mark .leftParen :: phrase) := by
  obtain ⟨inner, _, after, rfl⟩ := phrases_expression_iff.1 behind
  obtain ⟨_, rfl, rfl⟩ := phrases_mark_iff.1 after
  exact ⟨.group inner, rfl⟩

/-- An operator goes before its operand and the operands behind it. -/
theorem phrase_operator {operator : BinaryOperator} (behind : Phrases (Goal.expression []) phrase) :
    Phrase .operands (.mark operator.mark :: phrase) := by
  obtain ⟨_, _, ⟨operand, rfl⟩, after, rfl⟩ := behind
  obtain ⟨operands, rfl⟩ := phrases_singleton_iff.1 after
  exact ⟨.cons operator operand operands, rfl⟩

/-- The index in brackets makes the name before it an element. -/
theorem phrase_index (behind : Phrases (Goal.expression [Goal.mark .rightBracket]) phrase) :
    Phrase (.afterName name) (.mark .leftBracket :: phrase) := by
  obtain ⟨index, _, after, rfl⟩ := phrases_expression_iff.1 behind
  obtain ⟨_, rfl, rfl⟩ := phrases_mark_iff.1 after
  exact ⟨.element name index, rfl⟩

/-- A dot goes before the name of the subroutine and its arguments. -/
theorem phrase_qualified {receiver : Bool}
    (behind : Phrases [.kind .identifier, Goal.mark .leftParen, .arguments receiver] phrase) :
    Phrase (.afterCaller name) (.mark .dot :: phrase) := by
  obtain ⟨_, _, ⟨terminal, isName, rfl⟩, afterName, rfl⟩ := behind
  obtain ⟨_, after, rfl⟩ := phrases_mark_iff.1 afterName
  obtain ⟨arguments, rfl⟩ := phrases_singleton_iff.1 after
  cases terminal with
  | name subroutine => exact ⟨.qualified name subroutine arguments, rfl⟩
  | _ => cases isName

/-- A first argument is a term with operands, and further arguments are behind it. -/
theorem phrase_firstArgument {terminal : Terminal} {others : List Goal} {receiver : Bool}
    (term : ∀ {phrase}, Phrases others phrase → Phrase .term (terminal :: phrase))
    (behind : Phrases (others ++ [.operands, .moreArguments 0 receiver]) phrase) :
    Phrase (.arguments receiver) (terminal :: phrase) := by
  obtain ⟨first, _, after, shape⟩ := behind.expression_of_term term
  obtain ⟨arguments, rfl⟩ := phrases_singleton_iff.1 after
  exact ⟨.cons first arguments, by simp [Arguments.yield, shape]⟩

/-- A comma goes before one more argument. -/
theorem phrase_nextArgument {number : Nat} {receiver : Bool}
    (behind : Phrases (Goal.expression [.moreArguments (number + 1) receiver]) phrase) :
    Phrase (.moreArguments number receiver) (.mark .comma :: phrase) := by
  obtain ⟨first, _, after, rfl⟩ := phrases_expression_iff.1 behind
  obtain ⟨arguments, rfl⟩ := phrases_singleton_iff.1 after
  exact ⟨.cons first arguments, by simp [Arguments.following]⟩

end Expressions

/-- A goal is met by what it reads and what then meets the goals that take its place. -/
theorem phrase_of_reads {goal : Goal} {terminal : Terminal} {others : List Goal}
    {phrase : List Terminal} (reads : Reads goal terminal others) (behind : Phrases others phrase) :
    Phrase goal (terminal :: phrase) := by
  -- The induction is for goals that also read what another goal reads.
  induction reads generalizing phrase with
  | kind terminal =>
      cases behind
      exact ⟨terminal, rfl, rfl⟩
  | className text =>
      cases behind
      exact ⟨text, rfl⟩
  | group storage => exact phrase_group behind
  | noGroup reads inductionHypothesis =>
      obtain ⟨subroutines, shape⟩ := inductionHypothesis behind
      exact ⟨[], subroutines, shape⟩
  | subroutine kind => exact phrase_subroutine behind
  | classEnd =>
      cases behind
      exact ⟨[], rfl⟩
  | returnType result =>
      cases behind
      exact ⟨result, rfl⟩
  | subroutineName kind text =>
      cases behind
      exact ⟨text, rfl⟩
  | variableList role type => exact phrase_variableList behind
  | «variable» role type text =>
      cases behind
      exact ⟨text, rfl⟩
  | nextVariable role type => exact phrase_nextVariable behind
  | lastVariable role type =>
      cases behind
      exact ⟨[], rfl⟩
  | noParameters =>
      cases behind
      exact ⟨[], rfl⟩
  | firstParameter type => exact phrase_firstParameter behind
  | parameter type =>
      obtain ⟨name, rfl⟩ := phrases_singleton_iff.1 behind
      exact ⟨⟨type, name⟩, rfl⟩
  | nextParameter => exact phrase_nextParameter behind
  | lastParameter =>
      cases behind
      exact ⟨[], rfl⟩
  | locals => exact phrase_locals behind
  | noLocals reads inductionHypothesis =>
      obtain ⟨statements, shape⟩ := inductionHypothesis behind
      exact ⟨[], statements, shape⟩
  | assign => exact phrase_assign behind
  | choice => exact phrase_choice behind
  | loop => exact phrase_loop behind
  | perform => exact phrase_perform behind
  | «return» => exact phrase_return behind
  | blockEnd =>
      cases behind
      exact ⟨.nil, rfl⟩
  | present => exact phrase_present behind
  | absent reads inductionHypothesis =>
      obtain ⟨statements, shape⟩ := inductionHypothesis behind
      exact ⟨.absent, statements, shape⟩
  | target text => exact phrases_singleton_iff.1 behind text
  | element => exact phrase_element behind
  | value => exact phrase_value behind
  | noResult =>
      cases behind
      exact ⟨none, rfl⟩
  | result reads inductionHypothesis => exact phrase_result inductionHypothesis behind
  | integer value =>
      cases behind
      exact ⟨.integer value, rfl⟩
  | string contents =>
      cases behind
      exact ⟨.string contents, rfl⟩
  | constant value =>
      cases behind
      exact ⟨.constant value, rfl⟩
  | name text =>
      obtain ⟨term, shape⟩ := phrases_singleton_iff.1 behind
      exact ⟨term, shape.symm⟩
  | inner => exact phrase_inner behind
  | unary operator =>
      obtain ⟨operand, rfl⟩ := phrases_singleton_iff.1 behind
      exact ⟨.unary operator operand, rfl⟩
  | operator operator => exact phrase_operator behind
  | index name => exact phrase_index behind
  | called reads inductionHypothesis =>
      obtain ⟨call, shape⟩ := inductionHypothesis behind
      exact ⟨.call call, shape⟩
  | call text =>
      obtain ⟨call, shape⟩ := phrases_singleton_iff.1 behind
      exact ⟨call, shape.symm⟩
  | own name =>
      obtain ⟨arguments, rfl⟩ := phrases_singleton_iff.1 behind
      exact ⟨.own name arguments, rfl⟩
  | qualified name receiver => exact phrase_qualified behind
  | noArguments receiver =>
      cases behind
      exact ⟨.nil, rfl⟩
  | firstArgument receiver reads inductionHypothesis =>
      exact phrase_firstArgument inductionHypothesis behind
  | nextArgument number receiver => exact phrase_nextArgument behind
  | lastArgument number receiver =>
      cases behind
      exact ⟨.nil, rfl⟩

/-- Every goal is met by some phrase. -/
theorem exists_phrase (goal : Goal) : ∃ phrase, Phrase goal phrase := by
  let expression : Expression := .mk (.name "x") .nil
  cases goal with
  | kind sought =>
      cases sought with
      | keyword word => exact ⟨_, .keyword word, rfl, rfl⟩
      | punctuation sign => exact ⟨_, .mark sign, rfl, rfl⟩
      | identifier => exact ⟨_, .name "x", rfl, rfl⟩
      | string => exact ⟨_, .string "", rfl, rfl⟩
      | integer value => exact ⟨_, .integer value, rfl, rfl⟩
  | className => exact ⟨_, "x", rfl⟩
  | classBody => exact ⟨_, [], [], rfl⟩
  | subroutines => exact ⟨_, [], rfl⟩
  | returnType => exact ⟨_, none, rfl⟩
  | subroutineName kind => exact ⟨_, "x", rfl⟩
  | variableList role => exact ⟨_, ⟨.int, "x", []⟩, rfl⟩
  | «variable» role type => exact ⟨_, "x", rfl⟩
  | moreVariables role type => exact ⟨_, [], rfl⟩
  | parameters => exact ⟨_, [], rfl⟩
  | parameter => exact ⟨_, ⟨.int, "x"⟩, rfl⟩
  | moreParameters => exact ⟨_, [], rfl⟩
  | body => exact ⟨_, [], .nil, rfl⟩
  | statements => exact ⟨_, .nil, rfl⟩
  | alternative => exact ⟨_, .absent, .nil, rfl⟩
  | target => exact ⟨_, .assign "x" expression, rfl⟩
  | assignment => exact ⟨_, fun target => ⟨.assign target expression, rfl⟩⟩
  | result => exact ⟨_, none, rfl⟩
  | term => exact ⟨_, .name "x", rfl⟩
  | operands => exact ⟨_, .nil, rfl⟩
  | afterName name => exact ⟨_, .name name, rfl⟩
  | call => exact ⟨_, .own "x" .nil, rfl⟩
  | afterCaller name => exact ⟨_, .own name .nil, rfl⟩
  | arguments receiver => exact ⟨_, .nil, rfl⟩
  | moreArguments number receiver => exact ⟨_, .nil, rfl⟩

/-- Goals one after another are met by some phrase. -/
theorem exists_phrases (goals : List Goal) : ∃ phrase, Phrases goals phrase := by
  induction goals with
  | nil => exact ⟨[], rfl⟩
  | cons goal goals inductionHypothesis =>
      obtain ⟨first, isFirst⟩ := exists_phrase goal
      obtain ⟨rest, isRest⟩ := inductionHypothesis
      exact ⟨_, first, rest, isFirst, isRest, rfl⟩

end Prediction

end JackCompiler
