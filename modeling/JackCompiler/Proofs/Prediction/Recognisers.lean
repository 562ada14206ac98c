import JackCompiler.Proofs.Prediction.Steps

/-!
# Recognisers and what was foretold

Each recogniser pursues a goal, or several. The cases follow the definitions of the recognisers, and
of a goal nothing is used but how it reacts to the next terminal.
-/

namespace JackCompiler

open Grammar

namespace Pass

open Prediction

variable {α β : Type} {forecast : Forecast} {names : Names} {goals asked left later : List Goal}
  {before : PassState Tally}

/-- A part of the pass comes to an end as is foretold where certain goals are next, and leaves others
in their place. -/
def Pursues (forecast : Forecast) (asked left : List Goal) (part : Pass Tally α) : Prop :=
  ∀ ⦃goals names before⦄, Faces forecast (asked ++ goals) names before →
    Fulfils forecast part before fun _ after => Faces forecast (left ++ goals) names after

/-- A value alone pursues no more than is asked. -/
theorem pursues_pure (value : α) : Pursues forecast asked asked (pure value) :=
  fun _ _ _ faces => fulfils_pure faces

/-- Breaking off pursues anything, for breakdowns are left open. -/
theorem pursues_breakOff (breakdown : Breakdown) :
    Pursues forecast asked left (breakOff breakdown : Pass Tally α) :=
  fun _ _ _ _ => fulfils_breakOff breakdown

/-- Goals behind those that are pursued come next. -/
theorem Pursues.bind {part : Pass Tally α} {next : α → Pass Tally β} {between behind : List Goal}
    (first : Pursues forecast asked between part)
    (second : ∀ value, Pursues forecast (between ++ behind) left (next value)) :
    Pursues forecast (asked ++ behind) left (part >>= next) := by
  intro goals names before faces
  rw [List.append_assoc] at faces
  refine (first faces).bind fun value after faces => ?_
  rw [← List.append_assoc] at faces
  exact second value faces

/-- Expecting a mark pursues it. -/
theorem pursues_mark (sign : Punctuation) :
    Pursues forecast [Goal.mark sign] [] (expectMark sign) :=
  fun _ _ _ faces => fulfils_mark faces

/-! ## Expressions -/

section Expressions

variable {expression : Pass Tally Code} {place : Nat} {terminals : List Terminal}
  {after : PassState Tally} {token : Token}

/-- A kind that comes next and stands for an operator is its mark. -/
theorem exists_of_operator {operator : BinaryOperator}
    (next : (nextKind? terminals).bind BinaryOperator.ofKind? = some operator) :
    ∃ others, terminals = .mark operator.mark :: others := by
  obtain ⟨kind, comes, isOperator⟩ := Option.bind_eq_some_iff.1 next
  obtain ⟨terminal, first, same⟩ := Option.map_eq_some_iff.1 comes
  obtain ⟨others, rfl⟩ := List.head?_eq_some_iff.1 first
  rw [BinaryOperator.ofKind?_eq_some_iff.1 isOperator] at same
  exact ⟨others, by rw [Terminal.eq_mark_of_kind same]⟩

/-- Operators with terms are read as long as there are any. -/
theorem pursues_operands {term : Pass Tally Code} (terms : Pursues forecast [.term] [] term)
    (first : Code) : Pursues forecast [.operands] [] (iterate (operandStep term) first) := by
  intro goals names before faces
  refine fulfils_iterate (fun _ state => Faces forecast (.operands :: goals) names state)
    (fun code state faces => ?_) faces
  obtain ⟨place, terminals, here, foretold⟩ := faces
  refine fulfils_bind_of_done run_nextOperator? ?_
  rw [here.nextKind?]
  cases next : (nextKind? terminals).bind BinaryOperator.ofKind? with
  | none => exact fulfils_pure ⟨place, terminals, here, refusal?_operands next ▸ foretold⟩
  | some operator =>
      obtain ⟨others, rfl⟩ := exists_of_operator next
      refine (fulfils_advanceOver here).bind fun token after read => ?_
      have reads : Goal.react names (some (.mark operator.mark)) .operands =
          .read (Goal.expression []) names := by
        cases operator <;> rfl
      have faces : Faces forecast ([.term] ++ (.operands :: goals)) names after :=
        ⟨_, others, read.here, refusal?_of_read reads ▸ foretold⟩
      exact (terms faces).bind fun operand after faces => fulfils_pure faces

/-- Expressions pursue a term and operands if their terms pursue a term. -/
theorem pursues_expressionOf {term : Pass Tally Code} (terms : Pursues forecast [.term] [] term) :
    Pursues forecast [.term, .operands] [] (expressionOf term) :=
  terms.bind fun first => pursues_operands terms first

/-- Behind a number of arguments the closing parenthesis is next. -/
def Closes (forecast : Forecast) (number : Nat) (receiver : Bool) (goals : List Goal)
    (names : Names) (state : PassState Tally) : Prop :=
  ∃ place terminals, At forecast names (place + 1) terminals state ∧
    (Goal.reactClosing names number receiver terminals.head?).refusal? goals names (place + 1)
      terminals = forecast.refusal?

/-- What is found behind one more argument. -/
def Continues (forecast : Forecast) (number : Nat) (receiver : Bool) (goals : List Goal)
    (names : Names) (state : PassState Tally) : Prop :=
  ∃ fewer, number = fewer + 1 ∧ Faces forecast (.moreArguments fewer receiver :: goals) names state

/-- An item of a list of arguments is an expression and one more argument to count. -/
theorem fulfils_argumentItem {receiver : Bool} {code : Code} {count : UInt16}
    (expressions : Pursues forecast [.term, .operands] [] expression)
    (faces : Faces forecast (Goal.expression (.moreArguments count.toNat receiver :: goals)) names
      before) :
    Fulfils forecast (argumentItem expression (code, count)) before fun list after =>
      Continues forecast list.2.toNat receiver goals names after := by
  refine (expressions faces).bind fun argument after faces => ?_
  obtain ⟨place, terminals, here, foretold⟩ := faces
  have counting : Fulfils forecast (sum .arguments count 1) after fun total state =>
      Continues forecast total.toNat receiver goals names state := by
    refine fulfils_sum here (fun large => ?_) fun total added => ?_
    · rw [← foretold, List.nil_append, refusal?_moreArguments_of_many large]
      rfl
    · exact ⟨count.toNat, added, place, terminals, here, foretold⟩
  exact counting.bind fun total after reached => fulfils_pure reached

/-- Another argument follows a comma, and behind the last one the parenthesis is closed. -/
theorem fulfils_nextArgument {receiver : Bool} {number : Nat} (small : number ≤ maxCount)
    (continues : Continues forecast number receiver goals names before) :
    Fulfils forecast (take (.punctuation .comma)) before fun answer after =>
      if answer then
        Faces forecast (Goal.expression (.moreArguments number receiver :: goals)) names after
      else Closes forecast number receiver goals names after := by
  obtain ⟨fewer, rfl, place, terminals, here, foretold⟩ := continues
  have decided (other : Terminal) (kind : other.kind = (Terminal.mark .comma).kind) :
      other = .mark .comma := Terminal.eq_mark_of_kind kind
  refine (fulfils_take decided here).mono ?_
  rintro answer after (⟨rfl, others, rfl, there⟩ | ⟨rfl, absent, rfl⟩)
  · exact ⟨_, others, there, refusal?_moreArguments_of_comma small ▸ foretold⟩
  · exact ⟨place, terminals, here, refusal?_moreArguments small absent ▸ foretold⟩

/-- Arguments are read one by one. What is known of their number is the number itself. -/
theorem fulfils_expressionList {receiver : Bool}
    (expressions : Pursues forecast [.term, .operands] [] expression)
    (faces : Faces forecast (.arguments receiver :: goals) names before) :
    Fulfils forecast (expressionList expression) before fun list after =>
      Closes forecast list.2.toNat receiver goals names after := by
  obtain ⟨place, terminals, here, foretold⟩ := faces
  rw [expressionList_eq]
  refine fulfils_bind_of_done (run_nextIs _) ?_
  rw [here.nextKind?]
  by_cases closed : terminals.head? = some (.mark .rightParen)
  · obtain ⟨others, rfl⟩ := List.head?_eq_some_iff.1 closed
    refine fulfils_pure ⟨place, _, here, ?_⟩
    rw [← foretold]
    cases receiver <;> rfl
  · have apart : nextKind? terminals ≠ some (.punctuation .rightParen) := by
      intro same
      obtain ⟨terminal, comes, kind⟩ := Option.map_eq_some_iff.1 same
      exact closed (Terminal.eq_mark_of_kind kind ▸ comes)
    rw [if_neg (by simpa using apart)]
    rw [refusal?_arguments closed] at foretold
    refine fulfils_separated (fun list state => Faces forecast
      (Goal.expression (.moreArguments list.2.toNat receiver :: goals)) names state)
      (fun list state faces => fulfils_argumentItem expressions faces)
      (fun list state continues => fulfils_nextArgument ?_ continues)
      ⟨place, terminals, here, foretold⟩
    have bound := list.2.toNat_lt
    rw [maxCount]
    omega

/-- The parenthesis is closed, whereupon the receiver is counted. -/
theorem fulfils_closing {receiver : Bool} {number : Nat}
    (closes : Closes forecast number receiver goals names before) :
    Fulfils forecast (expectMark .rightParen) before fun _ after =>
      Meets forecast (Goal.reactClosing names number receiver (some (.mark .rightParen))) goals names
        after := by
  obtain ⟨place, terminals, here, foretold⟩ := closes
  have reading : Fulfils forecast (expect (.punctuation .rightParen)) before fun _ after =>
      Meets forecast (Goal.reactClosing names number receiver (some (.mark .rightParen))) goals names
        after := by
    refine fulfils_expect here (fun absent => ?_) ?_
    · rw [← foretold, Goal.reactClosing]
      · rfl
      · exact fun next => absent _ next rfl
    · rintro terminal others token after rfl kind read
      obtain rfl := Terminal.eq_mark_of_kind kind
      exact ⟨_, _, others, read.here, foretold⟩
  exact reading.bind fun _ _ meets => fulfils_pure meets

/-- Arguments are met up to the closing parenthesis, whose refusal is known from their number. -/
theorem fulfils_arguments {receiver : Bool}
    (expressions : Pursues forecast [.term, .operands] [] expression)
    (faces : Faces forecast (Goal.mark .leftParen :: .arguments receiver :: goals) names before) :
    Fulfils forecast (arguments expression) before fun list after =>
      Meets forecast (Goal.reactClosing names list.2.toNat receiver (some (.mark .rightParen))) goals
        names after := by
  refine (fulfils_mark faces).bind fun _ inside faces => ?_
  refine (fulfils_expressionList expressions faces).bind fun list after closes => ?_
  exact (fulfils_closing closes).bind fun _ _ meets => fulfils_pure meets

/-- A receiver is one argument more. -/
theorem fulfils_withReceiver {count : UInt16}
    (meets : Meets forecast (Goal.reactClosing names count.toNat true (some (.mark .rightParen)))
      goals names before) :
    Fulfils forecast (withReceiver count) before fun _ after => Faces forecast goals names after := by
  obtain ⟨place, terminal, terminals, here, foretold⟩ := meets
  rw [Goal.reactClosing] at foretold
  refine fulfils_sum here (fun large => ?_) fun total added => ?_
  · have large : maxCount < count.toNat + true.toNat := large
    rw [if_pos large] at foretold
    exact foretold
  · have bound := total.toNat_lt
    have small : ¬maxCount < count.toNat + true.toNat := by
      have added : total.toNat = count.toNat + true.toNat := added
      rw [maxCount]
      omega
    rw [if_neg small] at foretold
    exact ⟨place, terminals, here, foretold⟩

/-- Without a receiver nothing is added to the arguments. -/
theorem faces_of_closing {count : UInt16}
    (meets : Meets forecast (Goal.reactClosing names count.toNat false (some (.mark .rightParen)))
      goals names before) : Faces forecast goals names before := by
  obtain ⟨place, terminal, terminals, here, foretold⟩ := meets
  have bound := count.toNat_lt
  rw [Goal.reactClosing, if_neg (by rw [maxCount, Bool.toNat_false]; omega)] at foretold
  exact ⟨place, terminals, here, foretold⟩

/-- Calls pursue theirs if expressions do. -/
theorem pursues_subroutineCall (expressions : Pursues forecast [.term, .operands] [] expression) :
    Pursues forecast [.call] [] (subroutineCall expression) := by
  intro goals names before faces
  obtain ⟨place, terminals, here, foretold⟩ := faces
  rw [List.singleton_append, refusal?_cons, Goal.react] at foretold
  refine (fulfils_name here foretold).bind fun caller after meets => ?_
  refine (fulfils_choiceOfMark [.kind .identifier, Goal.mark .leftParen,
    .arguments (names.environment.place? caller).isSome] [Goal.mark .leftParen, .arguments true]
    rfl (fun _ _ => refusal?_afterCaller) meets.faces).bind ?_
  rintro (_ | _) after faces
  · refine (fulfils_arguments expressions faces).bind ?_
    rintro ⟨code, count⟩ after meets
    refine (fulfils_withReceiver meets).bind fun words after faces => ?_
    exact fulfils_bind_of_done run_className (fulfils_pure faces)
  · refine (fulfils_anyName faces).bind fun subroutine after faces => ?_
    obtain ⟨place, terminals, here, foretold⟩ := faces
    refine fulfils_bind_of_done (run_lookup? caller) ?_
    rw [here.environment]
    cases place? : names.environment.place? caller with
    | none =>
        rw [place?] at foretold
        refine (fulfils_arguments expressions ⟨place, terminals, here, foretold⟩).bind ?_
        rintro ⟨code, count⟩ after meets
        exact fulfils_pure (faces_of_closing meets)
    | some receiver =>
        rw [place?] at foretold
        refine (fulfils_arguments expressions ⟨place, terminals, here, foretold⟩).bind ?_
        rintro ⟨code, count⟩ after meets
        exact (fulfils_withReceiver meets).bind fun words after faces => fulfils_pure faces

/-- A mark that comes next. -/
theorem exists_of_mark {sign : Punctuation}
    (next : nextKind? terminals = some (.punctuation sign)) :
    ∃ others, terminals = .mark sign :: others := by
  obtain ⟨terminal, first, kind⟩ := Option.map_eq_some_iff.1 next
  obtain ⟨others, rfl⟩ := List.head?_eq_some_iff.1 first
  exact ⟨others, by rw [Terminal.eq_mark_of_kind kind]⟩

/-- A name in a term has been read already, and is read again if it is called. -/
theorem fulfils_nameTerm {text : String}
    (expressions : Pursues forecast [.term, .operands] [] expression)
    (here : At forecast names (place + 1) (.name text :: terminals) before)
    (read : HasRead forecast names (place + 1) (.name text) terminals before token after)
    (foretold : refusal? (.afterName text :: goals) names (place + 2) terminals =
      forecast.refusal?) :
    Fulfils forecast (nameTerm expression token) after fun _ state =>
      Faces forecast goals names state := by
  -- A name that is called is put back, so the call is read from where the name was.
  have calling (called : terminals.head? = some (.mark .leftParen) ∨
      terminals.head? = some (.mark .dot)) :
      Fulfils forecast (do unread; subroutineCall expression) after fun _ state =>
        Faces forecast goals names state := by
    refine fulfils_bind_of_done (unread_of_reads read.move) ?_
    refine pursues_subroutineCall expressions ⟨place, _, here, ?_⟩
    rw [refusal?_afterName_of_call called] at foretold
    rw [← foretold]
    rfl
  -- Behind the name comes a bracket, one of the two marks of a call, or what ends the term.
  refine fulfils_of_run (run_nameTerm expression token) ?_
  rw [read.here.nextKind?]
  split
  · next bracket =>
      obtain ⟨others, rfl⟩ := exists_of_mark bracket
      rw [refusal?_afterName_of_index] at foretold
      have resolving : Fulfils forecast (resolve token) after fun _ state => state = after ∧
          refusal? (Goal.expression (Goal.mark .rightBracket :: goals)) names (place + 3) others =
            forecast.refusal? := by
        refine fulfils_resolve read.shown read.span read.here (fun hidden => ?_) fun visible _ => ?_
        · rw [hidden] at foretold
          exact foretold
        · rw [visible] at foretold
          exact ⟨rfl, foretold⟩
      refine resolving.bind ?_
      rintro array _ ⟨rfl, foretold⟩
      refine (fulfils_advanceOver read.here).bind fun bracket inside opened => ?_
      refine (expressions ⟨_, others, opened.here, foretold⟩).bind fun index behind faces => ?_
      exact (fulfils_mark faces).bind fun _ _ faces => fulfils_pure faces
  · next parenthesis =>
      obtain ⟨others, rfl⟩ := exists_of_mark parenthesis
      exact calling (.inl rfl)
  · next dot =>
      obtain ⟨others, rfl⟩ := exists_of_mark dot
      exact calling (.inr rfl)
  · next bracket parenthesis dot =>
      have ends : EndsTerm (nextKind? terminals) := by
        cases next : nextKind? terminals with
        | none => rfl
        | some kind =>
            rw [next] at bracket parenthesis dot
            simp only [Option.some.injEq] at bracket parenthesis dot
            simpa [EndsTerm, Grammar.continuesName, and_assoc] using ⟨bracket, parenthesis, dot⟩
      rw [refusal?_afterName ends] at foretold
      have resolving : Fulfils forecast (resolve token) after fun _ state =>
          Faces forecast goals names state := by
        refine fulfils_resolve read.shown read.span read.here (fun hidden => ?_) fun visible _ => ?_
        · rw [hidden] at foretold
          exact foretold
        · rw [visible] at foretold
          exact ⟨_, terminals, read.here, foretold⟩
      exact resolving.bind fun place after faces => fulfils_pure faces

/-- The text of a string constant is there and short enough, or else the pass breaks off. -/
theorem fulfils_stringTerm {ends : Code → PassState Tally → Prop}
    (holds : ∀ code, ends code before) : Fulfils forecast (stringTerm token) before ends := by
  refine fulfils_bind_of_done (run_context _ _) ?_
  cases token.contents? forecast.context.source with
  | none => exact fulfils_breakOff _
  | some text =>
      refine fulfils_bind_of_done run_required ?_
      cases Code.stringConstant? text with
      | none => exact fulfils_breakOff _
      | some code => exact fulfils_pure (holds code)

/-- Terms of any depth pursue a term, by induction on the depth. -/
theorem pursues_term (depth : Nat) : Pursues forecast [.term] [] (term depth) := by
  induction depth with
  | zero => exact pursues_breakOff _
  | succ depth inductionHypothesis =>
      have inner := pursues_expressionOf inductionHypothesis
      rintro goals names before ⟨place, terminals, here, foretold⟩
      have reading : Fulfils forecast advance before fun token after => ∃ terminal others,
          terminals = terminal :: others ∧
            HasRead forecast names (place + 1) terminal others before token after := by
        refine fulfils_advance here ?_ fun terminal others token after shape read =>
          ⟨terminal, others, shape, read⟩
        rintro rfl
        exact foretold
      rw [term_eq]
      refine reading.bind ?_
      rintro token after ⟨terminal, others, rfl, read⟩
      rw [Token.kind_of_terminal? read.shown]
      have draws : after.labels.count ≤ forecast.draws := by
        have all := read.draws
        omega
      cases terminal with
      | integer value => exact fulfils_pure ⟨_, others, read.here, foretold⟩
      | string contents => exact fulfils_stringTerm fun code => ⟨_, others, read.here, foretold⟩
      | name text => exact fulfils_nameTerm inner here read foretold
      | keyword word =>
          cases word with
          | «true» | «false» | null | this => exact fulfils_pure ⟨_, others, read.here, foretold⟩
          | _ => exact fulfils_reject draws read.span foretold
      | mark sign =>
          have faces {asked : List Goal} (same : refusal? (asked ++ goals) names (place + 2) others =
              refusal? ([.term] ++ goals) names (place + 1) (.mark sign :: others)) :
              Faces forecast (asked ++ goals) names after :=
            ⟨_, others, read.here, same.trans foretold⟩
          cases sign with
          | minus | tilde =>
              exact (inductionHypothesis (faces rfl)).bind fun operand after faces =>
                fulfils_pure faces
          | leftParen =>
              have opened : Faces forecast ([.term, .operands, Goal.mark .rightParen] ++ goals) names
                  after := faces rfl
              exact (inner.bind fun code => (pursues_mark .rightParen).bind fun _ =>
                pursues_pure code) opened
          | _ => exact fulfils_reject draws read.span foretold

/-- Expressions pursue a term and operands. -/
theorem pursues_expression : Pursues forecast [.term, .operands] [] Pass.expression :=
  fun _ _ _ faces => fulfils_bind_of_done (run_context _ _)
    (pursues_expressionOf (pursues_term _) faces)

end Expressions

/-! ## Statements -/

section Statements

variable {block : Pass Tally Code} {place : Nat} {terminals : List Terminal}

/-- Tests pursue an expression in parentheses. -/
theorem pursues_condition : Pursues forecast
    [Goal.mark .leftParen, .term, .operands, Goal.mark .rightParen] [] condition :=
  (pursues_mark _).bind fun _ => pursues_expression.bind fun _ => (pursues_mark _).bind fun _ =>
    pursues_pure _

/-- The goal of the statements of a block includes its closing brace. -/
theorem pursues_blockOf {statements : Pass Tally Code}
    (inside : Pursues forecast [.statements] [Goal.mark .rightBrace] statements) :
    Pursues forecast [Goal.mark .leftBrace, .statements] [] (blockOf statements) :=
  (pursues_mark _).bind fun _ => inside.bind fun _ => (pursues_mark _).bind fun _ => pursues_pure _

/-- Assignments to elements pursue the index and the value. -/
theorem pursues_elementAssignment (array : Variable) : Pursues forecast
    [.term, .operands, Goal.mark .rightBracket, Goal.mark .equals, .term, .operands] []
    (elementAssignment array) :=
  pursues_expression.bind fun _ => (pursues_mark _).bind fun _ => (pursues_mark _).bind fun _ =>
    pursues_expression.bind fun _ => pursues_pure _

/-- Assignments to variables pursue the value. -/
theorem pursues_variableAssignment (target : Variable) :
    Pursues forecast [Goal.mark .equals, .term, .operands] [] (variableAssignment target) :=
  (pursues_mark _).bind fun _ => pursues_expression.bind fun _ => pursues_pure _

/-- Assignments pursue their target and what follows it. -/
theorem pursues_letStatement : Pursues forecast [.target] [] letStatement := by
  rintro goals names before ⟨place, terminals, here, foretold⟩
  rw [List.singleton_append, refusal?_cons, Goal.react] at foretold
  refine (fulfils_identifier here foretold).bind ?_
  rintro token after ⟨text, others, read, foretold⟩
  have resolving : Fulfils forecast (resolve token) after fun _ state =>
      Faces forecast (.assignment :: goals) names state := by
    refine fulfils_resolve read.shown read.span read.here (fun hidden => ?_) fun visible _ => ?_
    · rw [hidden] at foretold
      exact foretold
    · rw [visible] at foretold
      exact ⟨_, others, read.here, foretold⟩
  refine resolving.bind fun target after faces => ?_
  refine (fulfils_choiceOfMark (Goal.expression (Goal.mark .rightBracket :: Goal.mark .equals ::
    Goal.expression [Goal.mark .semicolon])) (Goal.mark .equals ::
    Goal.expression [Goal.mark .semicolon]) rfl (fun _ _ => refusal?_assignment) faces).bind ?_
  rintro (_ | _) after faces
  · exact ((pursues_variableAssignment target).bind fun code =>
      (pursues_mark _).bind fun _ => pursues_pure code) faces
  · exact ((pursues_elementAssignment target).bind fun code =>
      (pursues_mark _).bind fun _ => pursues_pure code) faces

/-- Calls as statements pursue a call and a semicolon. -/
theorem pursues_doStatement : Pursues forecast [.call, Goal.mark .semicolon] [] doStatement :=
  (pursues_subroutineCall pursues_expression).bind fun _ => (pursues_mark _).bind fun _ =>
    pursues_pure _

/-- Returns pursue their value. -/
theorem pursues_returnStatement : Pursues forecast [.result] [] returnStatement := by
  intro goals names before faces
  refine (fulfils_choiceOfMark [] (Goal.expression [Goal.mark .semicolon]) rfl
    (fun _ _ => refusal?_result) faces).bind ?_
  rintro (_ | _) after faces
  · exact (pursues_expression.bind fun _ => (pursues_mark _).bind fun _ => pursues_pure _) faces
  · exact fulfils_pure faces

/-- Choices meet their goals once their labels are drawn. -/
theorem fulfils_ifStatement
    (blocks : Pursues forecast [Goal.mark .leftBrace, .statements] [] block)
    (faces : Faces forecast ([Goal.mark .leftParen, .term, .operands, Goal.mark .rightParen,
      Goal.mark .leftBrace, .statements, .alternative] ++ goals) names
      { before with labels := ⟨before.labels.count + 2⟩ }) :
    Fulfils forecast (ifStatement block) before fun _ after =>
      Faces forecast (.statements :: goals) names after := by
  have decided (other : Terminal) (kind : other.kind = (Terminal.keyword .else).kind) :
      other = .keyword .else := Terminal.eq_keyword_of_kind kind
  have alternatives (code : Code → Code) : Pursues forecast [.alternative] [.statements] (do
      let alternative ← if ← take (.keyword .else) then block else pure .empty
      pure (code alternative)) := by
    intro goals names before faces
    refine (fulfils_choice [Goal.mark .leftBrace, .statements, .statements] [.statements] decided
      rfl (fun _ _ => refusal?_alternative) faces).bind ?_
    rintro (_ | _) after faces
    · exact fulfils_pure faces
    · exact (blocks.bind fun _ => pursues_pure _) faces
  exact (pursues_condition.bind fun _ => blocks.bind fun _ => alternatives _) faces

/-- Loops meet their goals once their labels are drawn. -/
theorem fulfils_whileStatement
    (blocks : Pursues forecast [Goal.mark .leftBrace, .statements] [] block)
    (faces : Faces forecast ([Goal.mark .leftParen, .term, .operands, Goal.mark .rightParen,
      Goal.mark .leftBrace, .statements] ++ goals) names
      { before with labels := ⟨before.labels.count + 2⟩ }) :
    Fulfils forecast (whileStatement block) before fun _ after =>
      Faces forecast goals names after :=
  (pursues_condition.bind fun _ => blocks.bind fun _ => pursues_pure _) faces

/-- Statements are read up to a token that opens none, which is read again by what closes them. -/
theorem pursues_statementsOf
    (blocks : Pursues forecast [Goal.mark .leftBrace, .statements] [] block) :
    Pursues forecast [.statements] [Goal.mark .rightBrace] (statementsOf block) := by
  intro goals names before faces
  refine fulfils_iterate (fun _ state => Faces forecast (.statements :: goals) names state)
    (fun code state faces => ?_) faces
  obtain ⟨place, terminals, here, foretold⟩ := faces
  have reading : Fulfils forecast advance state fun token after => ∃ terminal others,
      terminals = terminal :: others ∧
        HasRead forecast names (place + 1) terminal others state token after := by
    refine fulfils_advance here ?_ fun terminal others token after shape read =>
      ⟨terminal, others, shape, read⟩
    rintro rfl
    exact foretold
  show Fulfils forecast (statementStep block code) state _
  rw [statementStep_eq]
  refine reading.bind ?_
  rintro token after ⟨terminal, others, rfl, read⟩
  rw [Token.kind_of_terminal? read.shown]
  have faces {asked : List Goal}
      (same : refusal? (asked ++ .statements :: goals) names (place + 2) others =
        refusal? ([.statements] ++ goals) names (place + 1) (terminal :: others)) :
      Faces forecast (asked ++ .statements :: goals) names after :=
    ⟨_, others, read.here, same.trans foretold⟩
  have ended (apart : ∀ word ∈ statementWords,
      (terminal :: others).head? ≠ some (.keyword word)) :
      Fulfils forecast (do unread; pure (.inr code)) after fun (outcome : Code ⊕ Code) after =>
        outcome.elim (fun _ => Faces forecast (.statements :: goals) names after)
          fun _ => Faces forecast ([Goal.mark .rightBrace] ++ goals) names after := by
    refine fulfils_bind_of_done (unread_of_reads read.move) (fulfils_pure ?_)
    exact ⟨place, _, here, refusal?_statements apart ▸ foretold⟩
  cases terminal with
  | keyword word =>
      cases word with
      | «let» =>
          have faces : Faces forecast ([.target] ++ .statements :: goals) names after := faces rfl
          exact (pursues_letStatement faces).bind fun _ _ faces => fulfils_pure faces
      | «if» =>
          -- Both labels are drawn before anything behind the word is read.
          have there := read.here.drawn read.draws
          have faces : Faces forecast ([Goal.mark .leftParen, .term, .operands,
              Goal.mark .rightParen, Goal.mark .leftBrace, .statements, .alternative] ++ goals)
              names { after with labels := ⟨after.labels.count + 2⟩ } :=
            ⟨_, others, there, foretold⟩
          exact (fulfils_ifStatement blocks faces).bind fun _ _ faces => fulfils_pure faces
      | «while» =>
          have there := read.here.drawn read.draws
          have faces : Faces forecast ([Goal.mark .leftParen, .term, .operands,
              Goal.mark .rightParen, Goal.mark .leftBrace, .statements] ++ .statements :: goals)
              names { after with labels := ⟨after.labels.count + 2⟩ } :=
            ⟨_, others, there, foretold⟩
          exact (fulfils_whileStatement blocks faces).bind fun _ _ faces => fulfils_pure faces
      | «do» =>
          have faces : Faces forecast ([.call, Goal.mark .semicolon] ++ .statements :: goals) names
              after := faces rfl
          exact (pursues_doStatement faces).bind fun _ _ faces => fulfils_pure faces
      | «return» =>
          have faces : Faces forecast ([.result] ++ .statements :: goals) names after := faces rfl
          exact (pursues_returnStatement faces).bind fun _ _ faces => fulfils_pure faces
      | _ => exact ended (by simp [statementWords])
  | _ => exact ended (by simp)

/-- Statements of any depth pursue those of a block, by induction on the depth. -/
theorem pursues_statementsWithin (depth : Nat) :
    Pursues forecast [.statements] [Goal.mark .rightBrace] (statementsWithin depth) := by
  induction depth with
  | zero => exact pursues_breakOff _
  | succ depth inductionHypothesis =>
      exact pursues_statementsOf (pursues_blockOf inductionHypothesis)

/-- Statements pursue those of a block and leave its closing brace. -/
theorem pursues_statements :
    Pursues forecast [.statements] [Goal.mark .rightBrace] statements :=
  fun _ _ _ faces => fulfils_bind_of_done (run_context _ _) (pursues_statementsWithin _ faces)

end Statements

end Pass

end JackCompiler
