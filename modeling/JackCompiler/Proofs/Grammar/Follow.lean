import JackCompiler.Proofs.Grammar.Tree

/-!
# What phrases start with and what follows them

A phrase that can be longer or shorter is told from its continuation by the next token. The
conditions here say which tokens do not continue a phrase; they hold wherever the grammar places the
phrase.
-/

namespace JackCompiler.Grammar

/-- The kind of the first terminal. -/
def nextKind? (terminals : List Terminal) : Option Token.Kind := terminals.head?.map Terminal.kind

@[simp] theorem nextKind?_nil : nextKind? [] = none := rfl

@[simp] theorem nextKind?_cons (first : Terminal) (others : List Terminal) :
    nextKind? (first :: others) = some first.kind := rfl

/-- What comes first in a phrase and what is behind it. -/
theorem nextKind?_append (phrase rest : List Terminal) :
    nextKind? (phrase ++ rest) = (nextKind? phrase).or (nextKind? rest) := by
  cases phrase <;> simp

/-- Whether a name goes on with a token of a kind, as an element of an array or a call. -/
def continuesName (kind : Token.Kind) : Bool :=
  kind = .punctuation .leftBracket || kind = .punctuation .leftParen || kind = .punctuation .dot

/-- What comes next does not continue a term. -/
def EndsTerm (next : Option Token.Kind) : Prop := next.any continuesName = false

/-- What comes next does not continue an expression. -/
structure EndsExpression (next : Option Token.Kind) : Prop where
  term : EndsTerm next
  operator : next.bind BinaryOperator.ofKind? = none

/-- Expressions end in front of the marks that close what they stand in. -/
theorem endsExpression_of_mark (sign : Punctuation)
    (closes : sign ∈ [.rightParen, .rightBracket, .semicolon, .comma]) :
    EndsExpression (some (.punctuation sign)) := by
  simp only [List.mem_cons, List.not_mem_nil, or_false] at closes
  rcases closes with rfl | rfl | rfl | rfl <;> exact ⟨rfl, rfl⟩

/-- A term ends in front of an operator. -/
theorem endsTerm_of_operator (operator : BinaryOperator) :
    EndsTerm (some (.punctuation operator.mark)) := by
  cases operator <;> rfl

/-- A term in an expression ends where the operators behind it begin. -/
theorem Operands.endsTerm (operands : Operands) {next : Option Token.Kind}
    (ends : EndsExpression next) : EndsTerm ((nextKind? operands.yield).or next) := by
  cases operands with
  | nil => exact ends.term
  | cons operator operand others => exact endsTerm_of_operator operator

/-- An argument ends where the arguments behind it, or the closing parenthesis, begin. -/
theorem Arguments.endsExpression (others : Arguments) :
    EndsExpression ((nextKind? others.following).or (some (.punctuation .rightParen))) := by
  cases others with
  | nil => exact endsExpression_of_mark .rightParen (by simp)
  | cons first others => exact endsExpression_of_mark .comma (by simp)

/-- What a phrase that is not empty starts with is no mark that closes an empty one. -/
def opensPhrase (kind : Token.Kind) : Prop :=
  kind ≠ .punctuation .rightParen ∧ kind ≠ .punctuation .semicolon

/-- A call begins with a name, and a parenthesis or a dot is behind it. -/
theorem Call.opens (call : Call) :
    ∃ text others, call.yield = .name text :: others ∧
      (nextKind? others = some (.punctuation .leftParen) ∨
        nextKind? others = some (.punctuation .dot)) := by
  cases call with
  | own subroutine arguments => exact ⟨subroutine, _, rfl, .inl rfl⟩
  | qualified owner subroutine arguments => exact ⟨owner, _, rfl, .inr rfl⟩

/-- A term begins with a token that opens phrases. -/
theorem Term.opens (term : Term) :
    ∃ first others, term.yield = first :: others ∧ opensPhrase first.kind := by
  cases term with
  | integer value => exact ⟨_, _, rfl, by simp [opensPhrase, Terminal.kind]⟩
  | string contents => exact ⟨_, _, rfl, by simp [opensPhrase, Terminal.kind]⟩
  | constant value => exact ⟨_, _, rfl, by simp [opensPhrase, Terminal.kind]⟩
  | name text => exact ⟨_, _, rfl, by simp [opensPhrase, Terminal.kind]⟩
  | element array index => exact ⟨_, _, rfl, by simp [opensPhrase, Terminal.kind]⟩
  | call call =>
      obtain ⟨text, others, shape, _⟩ := call.opens
      exact ⟨_, _, shape, by simp [opensPhrase, Terminal.kind]⟩
  | group inner => exact ⟨_, _, rfl, by simp [opensPhrase, Terminal.kind]⟩
  | unary operator operand =>
      refine ⟨_, _, rfl, ?_⟩
      cases operator <;> simp [opensPhrase, Terminal.kind, UnaryOperator.mark]

/-- An expression begins with a token that opens phrases. -/
theorem Expression.opens (expression : Expression) :
    ∃ first others, expression.yield = first :: others ∧ opensPhrase first.kind := by
  cases expression with
  | mk first others =>
      obtain ⟨start, rest, shape, opens⟩ := first.opens
      exact ⟨start, rest ++ others.yield, by rw [Expression.yield, shape]; rfl, opens⟩

/-- The keywords of statements. -/
def statementWords : List Keyword := [.let, .if, .while, .do, .return]

/-- Every statement starts with its keyword. -/
theorem Statement.opens (statement : Statement) :
    ∃ word others, statement.yield = .keyword word :: others ∧ word ∈ statementWords := by
  cases statement with
  | «return» value =>
      cases value with
      | none => exact ⟨_, _, rfl, by simp [statementWords]⟩
      | some value => exact ⟨_, _, rfl, by simp [statementWords]⟩
  | _ => exact ⟨_, _, rfl, by simp [statementWords]⟩

/-- Statements in braces start with the keyword of a statement or are at their end. -/
theorem Statements.opens (statements : Statements) :
    (nextKind? statements.yield).or (some (.punctuation .rightBrace)) =
        some (.punctuation .rightBrace) ∨
      ∃ word ∈ statementWords,
        (nextKind? statements.yield).or (some (.punctuation .rightBrace)) =
          some (.keyword word) := by
  cases statements with
  | nil => exact .inl rfl
  | cons first others =>
      obtain ⟨word, following, shape, isWord⟩ := first.opens
      refine .inr ⟨word, isWord, ?_⟩
      rw [Statements.yield, shape]
      rfl

/-- What comes next does not continue a choice. -/
def EndsChoice (next : Option Token.Kind) : Prop := next ≠ some (.keyword .else)

/-- A statement ends where the statements behind it, or the closing brace, begin. -/
theorem Statements.endsChoice (others : Statements) :
    EndsChoice ((nextKind? others.yield).or (some (.punctuation .rightBrace))) := by
  rcases others.opens with ended | ⟨word, isWord, next⟩
  · rw [ended]
    simp [EndsChoice]
  · rw [next]
    rintro ⟨⟩
    simp [statementWords] at isWord

/-- Statements do not start with the word of a declaration. -/
theorem Statements.not_var (statements : Statements) :
    ((nextKind? statements.yield).or (some (.punctuation .rightBrace))).any
      (· == .keyword .var) = false := by
  rcases statements.opens with ended | ⟨word, isWord, next⟩
  · rw [ended]
    rfl
  · rw [next, Option.any_some, beq_eq_false_iff_ne]
    rintro ⟨⟩
    simp [statementWords] at isWord

/-- Every declaration of class variables starts with the word of its storage class. -/
theorem ClassVariables.opens (declared : ClassVariables) :
    ∃ first others, declared.yield = first :: others ∧
      Token.Kind.opensClassVariables first.kind := by
  refine ⟨_, _, rfl, ?_⟩
  cases declared.storage <;> rfl

/-- Every subroutine starts with the word of its kind. -/
theorem Subroutine.opens (subroutine : Subroutine) :
    ∃ first others, subroutine.yield = first :: others ∧ Token.Kind.opensSubroutine first.kind := by
  refine ⟨_, _, rfl, ?_⟩
  cases subroutine.kind <;> rfl

/-- Subroutines do not start with the word of a declaration of class variables. -/
theorem not_opensClassVariables (subroutines : List Subroutine) :
    ((nextKind? (subroutines.flatMap Subroutine.yield)).or (some (.punctuation .rightBrace))).any
      Token.Kind.opensClassVariables = false := by
  cases subroutines with
  | nil => rfl
  | cons first others =>
      rw [List.flatMap_cons, Subroutine.yield]
      show Token.Kind.opensClassVariables (.keyword first.kind.word) = false
      cases first.kind <;> rfl

end JackCompiler.Grammar
