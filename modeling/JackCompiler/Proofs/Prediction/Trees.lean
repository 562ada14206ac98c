import JackCompiler.Proofs.Prediction.Requests

/-!
# Trees in front of goals

A goal that faces the yield of a tree is met by it: the first error is the first request of the tree
that is not met, and if there is none the goals behind are left in front of what follows the yield.
-/

namespace JackCompiler

open Grammar

namespace Prediction

/-- Goals in front of a phrase and more come to other goals behind it, unless a request is not met. -/
def Comes (goals : List Goal) (names : Names) (place : Nat) (phrase rest : List Terminal)
    (requests : List Request) (others : List Goal) (names' : Names) : Prop :=
  refusal? goals names place (phrase ++ rest) =
    (firstUnmet requests).or (refusal? others names' (place + phrase.length) rest)

namespace Comes

variable {goals middle others : List Goal} {names names' names'' : Names} {place : Nat}
  {phrase phrase' rest : List Terminal} {requests requests' : List Request}

theorem nil : Comes goals names place [] rest [] goals names := rfl

/-- Phrases follow one another. -/
theorem append {place' : Nat}
    (first : Comes goals names place phrase (phrase' ++ rest) requests middle names')
    (second : Comes middle names' place' phrase' rest requests' others names'')
    (reached : place' = place + phrase.length) :
    Comes goals names place (phrase ++ phrase') rest (requests ++ requests') others names'' := by
  unfold Comes at *
  rw [List.append_assoc, first, ← reached, second, firstUnmet_append, Option.or_assoc, reached,
    List.length_append, Nat.add_assoc]

/-- A terminal is read, and the goals that this leads to face the others. -/
theorem cons {goal : Goal} {terminal : Terminal} (middle : List Goal)
    (reaction : goal.react names (some terminal) = .read middle names')
    (behind : Comes (middle ++ goals) names' (place + 1) phrase rest requests others names'') :
    Comes (goal :: goals) names place (terminal :: phrase) rest requests others names'' := by
  unfold Comes at *
  rw [List.cons_append, refusal?_of_read reaction, behind, List.length_cons]
  congr 2
  omega

/-- Other goals come to the same. -/
theorem of_eq (same : refusal? goals names place (phrase ++ rest) =
      refusal? middle names place (phrase ++ rest))
    (comes : Comes middle names place phrase rest requests others names') :
    Comes goals names place phrase rest requests others names' := same.trans comes

/-- A request comes up first. -/
theorem request {request : Request} (middle : List Goal)
    (same : refusal? goals names place (phrase ++ rest) =
      if request.met then refusal? middle names place (phrase ++ rest)
      else some ⟨request.place, request.lack.error⟩)
    (comes : Comes middle names place phrase rest requests others names') :
    Comes goals names place phrase rest (request :: requests) others names' := by
  unfold Comes at *
  rw [same, comes, firstUnmet_cons_or]

/-- A terminal is read if a request is met. -/
theorem cons_request {terminal : Terminal} {request : Request}
    (same : refusal? goals names place (terminal :: (phrase ++ rest)) =
      if request.met then refusal? middle names' (place + 1) (phrase ++ rest)
      else some ⟨request.place, request.lack.error⟩)
    (behind : Comes middle names' (place + 1) phrase rest requests others names'') :
    Comes goals names place (terminal :: phrase) rest (request :: requests) others names'' := by
  unfold Comes at *
  rw [List.cons_append, same, behind, firstUnmet_cons_or, List.length_cons,
    Nat.add_right_comm, Nat.add_assoc]

/-- A mark is read. -/
theorem mark {sign : Punctuation}
    (behind : Comes goals names (place + 1) phrase rest requests others names') :
    Comes (Goal.mark sign :: goals) names place (.mark sign :: phrase) rest requests others
      names' :=
  cons [] (if_pos rfl) behind

/-- Marks are read behind a phrase. -/
theorem marks (signs : List Punctuation)
    (first : Comes goals names place phrase (signs.map .mark ++ rest) requests
      (signs.map Goal.mark ++ others) names') :
    Comes goals names place (phrase ++ signs.map .mark) rest requests others names' := by
  rw [← List.append_nil requests]
  refine first.append ?_ rfl
  generalize place + phrase.length = place
  clear first
  induction signs generalizing place with
  | nil => exact nil
  | cons sign signs inductionHypothesis => exact mark (inductionHypothesis _)

end Comes

section Expressions

variable {names : Names}

/-- What an expression begins with does not close an empty phrase. -/
theorem head?_yield_ne {rest : List Terminal} {terminal : Terminal} (expression : Expression)
    (closing : ¬opensPhrase terminal.kind) :
    (expression.yield ++ rest).head? ≠ some terminal := by
  obtain ⟨first, others, shape, opens⟩ := expression.opens
  rw [shape]
  rintro ⟨⟩
  exact closing opens

/-- The name that a called term begins with is that of a call. -/
theorem refusal?_term_of_call {goals : List Goal} {rest : List Terminal} (call : Call)
    (place : Nat) :
    refusal? (.term :: goals) names place (call.yield ++ rest) =
      refusal? (.call :: goals) names place (call.yield ++ rest) := by
  cases call with
  | own subroutine arguments => exact refusal?_afterName_of_call (.inl rfl)
  | qualified owner subroutine arguments => exact refusal?_afterName_of_call (.inr rfl)

mutual

/-- An expression comes with its requests. -/
theorem comes_expression {goals : List Goal} {rest : List Terminal} (expression : Expression)
    (place : Nat) (ends : EndsExpression (nextKind? rest)) :
    Comes (Goal.expression goals) names place expression.yield rest
      (expressionRequests names.environment place expression) goals names := by
  cases expression with
  | mk first others =>
      refine .append (comes_term first place ?_) (comes_operands others _ ends) rfl
      rw [nextKind?_append]
      exact others.endsTerm ends

/-- Operands come with their requests. -/
theorem comes_operands {goals : List Goal} {rest : List Terminal} (operands : Operands)
    (place : Nat) (ends : EndsExpression (nextKind? rest)) :
    Comes (.operands :: goals) names place operands.yield rest
      (operandRequests names.environment place operands) goals names := by
  cases operands with
  | nil => exact .of_eq (refusal?_operands ends.operator) .nil
  | cons operator operand others =>
      refine .cons (Goal.expression []) ?_
        (.append (comes_term operand _ ?_) (comes_operands others _ ends) rfl)
      · cases operator <;> rfl
      · rw [nextKind?_append]
        exact others.endsTerm ends

/-- A term comes with its requests. -/
theorem comes_term {goals : List Goal} {rest : List Terminal} (term : Term) (place : Nat)
    (ends : EndsTerm (nextKind? rest)) :
    Comes (.term :: goals) names place term.yield rest
      (termRequests names.environment place term) goals names := by
  cases term with
  | integer value => exact .cons [] rfl .nil
  | string contents => exact .cons [] rfl .nil
  | constant value =>
      refine .cons [] ?_ .nil
      cases value <;> rfl
  | name text =>
      exact .cons [.afterName text] rfl
        (.request _ (refusal?_afterName ends) .nil)
  | element array index =>
      refine .cons [.afterName array] rfl
        (.cons_request refusal?_afterName_of_index
          (.marks [.rightBracket] (comes_expression index _ (endsExpression_of_mark _ (by simp)))))
  | call call => exact .of_eq (refusal?_term_of_call call place) (comes_call call place)
  | group inner =>
      exact .cons (Goal.expression [Goal.mark .rightParen]) rfl
        (.marks [.rightParen] (comes_expression inner _ (endsExpression_of_mark _ (by simp))))
  | unary operator operand =>
      refine .cons [.term] ?_ (comes_term operand _ ends)
      cases operator <;> rfl

/-- A call comes with its requests. -/
theorem comes_call {goals : List Goal} {rest : List Terminal} (call : Call) (place : Nat) :
    Comes (.call :: goals) names place call.yield rest
      (callRequests names.environment place call) goals names := by
  cases call with
  | own subroutine arguments =>
      exact .cons [.afterCaller subroutine] rfl
        (.cons [.arguments true] rfl (comes_arguments arguments _))
  | qualified owner subroutine arguments =>
      exact .cons [.afterCaller owner] rfl (.cons _ rfl
        (.cons [] rfl (.mark (comes_arguments arguments _))))

/-- The arguments behind an opening parenthesis. -/
theorem comes_arguments {goals : List Goal} {rest : List Terminal} {receiver : Bool}
    (arguments : Arguments) (place : Nat) :
    Comes (.arguments receiver :: goals) names (place + 1)
      (arguments.yield ++ [.mark .rightParen]) rest
      (argumentRequests names.environment 0 receiver place arguments) goals names := by
  cases arguments with
  | nil =>
      refine .request (Goal.mark .rightParen :: goals) ?_ (.mark .nil)
      cases receiver <;> rfl
  | cons first others =>
      rw [Arguments.yield, List.append_assoc]
      refine .of_eq (refusal?_arguments ?_)
        (.append (comes_expression first _ ?_) (comes_following others _ _ ?_) rfl)
      · rw [List.append_assoc]
        exact head?_yield_ne first (by simp [opensPhrase, Terminal.kind])
      · rw [List.append_assoc, nextKind?_append]
        exact others.endsExpression
      · exact Nat.add_right_comm place 1 _

/-- The arguments behind others, of which the last has ended at a given place. -/
theorem comes_following {goals : List Goal} {rest : List Terminal} {number : Nat}
    {receiver : Bool} (arguments : Arguments) (last place : Nat) (behind : place = last + 1) :
    Comes (.moreArguments number receiver :: goals) names place
      (arguments.following ++ [.mark .rightParen]) rest
      (.countable (number + 1) last ::
        argumentRequests names.environment (number + 1) receiver place arguments)
      goals names := by
  by_cases few : number + 1 ≤ maxCount
  · have isMet : (Request.countable (number + 1) last).met := decide_eq_true few
    refine .request (.moreArguments number receiver :: goals) (if_pos isMet).symm ?_
    cases arguments with
    | nil =>
        refine .cons_request ?_ .nil
        rw [refusal?_moreArguments few (by simp), List.head?_cons, refusal?_closing]
        by_cases many : maxCount < number + 1 + receiver.toNat
        · rw [if_pos many, Request.countable, decide_eq_false (Nat.not_le.2 many)]
          rfl
        · rw [if_neg many, Request.countable, decide_eq_true (Nat.not_lt.1 many)]
          rfl
    | cons first others =>
        have reaction : (Goal.moreArguments number receiver).react names (some (.mark .comma)) =
            .read (Goal.expression [.moreArguments (number + 1) receiver]) names := by
          rw [Goal.react, Goal.reactArgument, if_neg (Nat.not_lt.2 few)]
        rw [Arguments.following, List.cons_append, List.cons_append, List.append_assoc]
        refine .cons _ reaction
          (.append (comes_expression first _ ?_) (comes_following others _ _ ?_) rfl)
        · rw [List.append_assoc, nextKind?_append]
          exact others.endsExpression
        · exact Nat.add_right_comm place 1 _
  · show refusal? _ _ _ _ = _
    rw [refusal?_moreArguments_of_many (Nat.not_le.1 few), firstUnmet_cons_or, Request.countable,
      decide_eq_false few, behind]
    rfl

end

end Expressions

section Statements

variable {names : Names}

/-- An expression, and marks behind it of which the first ends it. -/
theorem comes_closed {goals : List Goal} {rest : List Terminal} (sign : Punctuation)
    (signs : List Punctuation) (expression : Expression) (place : Nat)
    (closes : sign ∈ [.rightParen, .rightBracket, .semicolon, .comma]) :
    Comes (Goal.expression ((sign :: signs).map Goal.mark ++ goals)) names place
      (expression.yield ++ (sign :: signs).map .mark) rest
      (expressionRequests names.environment place expression) goals names :=
  .marks (sign :: signs) (comes_expression expression place (endsExpression_of_mark sign closes))

/-- The target of an assignment has to be visible. -/
theorem comes_target {goals : List Goal} {place : Nat} {target : String}
    {phrase rest : List Terminal} {requests : List Request}
    (behind : Comes (.assignment :: goals) names (place + 1) phrase rest requests goals names) :
    Comes (.target :: goals) names place (.name target :: phrase) rest
      (.visible names.environment target place :: requests) goals names := by
  refine .cons_request ?_ behind
  rw [refusal?_cons, List.head?_cons, Goal.react, Reaction.expectName, Request.visible]
  by_cases visible : (names.environment.place? target).isSome
  · rw [if_pos visible, if_pos visible]
    rfl
  · rw [if_neg visible, if_neg visible]
    rfl

mutual

/-- A statement comes with its requests, and other statements may come behind it. -/
theorem comes_statement {goals : List Goal} {rest : List Terminal} (statement : Statement)
    (place : Nat) (ends : EndsChoice (nextKind? rest)) :
    Comes (.statements :: goals) names place statement.yield rest
      (statementRequests names.environment place statement) (.statements :: goals) names := by
  cases statement with
  | assign target value =>
      have assigned : Comes (.assignment :: .statements :: goals) names (place + 2)
          (.mark .equals :: (value.yield ++ [.mark .semicolon])) rest
          (expressionRequests names.environment (place + 3) value) (.statements :: goals) names :=
        .of_eq (refusal?_assignment (by simp))
          (.mark (comes_closed .semicolon [] value _ (by simp)))
      exact .cons [.target, .statements] rfl (comes_target assigned)
  | assignElement array index value =>
      refine .cons [.target, .statements] rfl (comes_target (.cons _ rfl (.marks [.semicolon] ?_)))
      refine .append (comes_closed .rightBracket [.equals] index _ (by simp))
        (comes_expression value _ (endsExpression_of_mark .semicolon (by simp))) ?_
      simp
      omega
  | choice test body alternative =>
      refine .cons _ rfl (.mark ?_)
      refine .append (.marks [.rightBrace] ?_) (comes_alternative alternative _ ends) ?_
      · refine .append (comes_closed .rightParen [.leftBrace] test _ (by simp))
          (comes_statements body _) ?_
        simp
        omega
      · simp
        omega
  | loop test body =>
      refine .cons _ rfl (.mark (.marks [.rightBrace] ?_))
      refine .append (comes_closed .rightParen [.leftBrace] test _ (by simp))
        (comes_statements body _) ?_
      simp
      omega
  | perform call =>
      exact .cons [.call, Goal.mark .semicolon, .statements] rfl
        (.marks [.semicolon] (comes_call call _))
  | «return» value =>
      cases value with
      | none => exact .cons [.result, .statements] rfl (.cons [] rfl .nil)
      | some value =>
          have apart : (value.yield ++ [Terminal.mark .semicolon] ++ rest).head? ≠
              some (.mark .semicolon) := by
            rw [List.append_assoc]
            exact head?_yield_ne value (by simp [opensPhrase, Terminal.kind])
          exact .cons [.result, .statements] rfl
            (.of_eq (refusal?_result apart) (comes_closed .semicolon [] value _ (by simp)))

/-- An alternative comes with its requests, and other statements may come behind it. -/
theorem comes_alternative {goals : List Goal} {rest : List Terminal} (alternative : Alternative)
    (place : Nat) (ends : EndsChoice (nextKind? rest)) :
    Comes (.alternative :: goals) names place alternative.yield rest
      (alternativeRequests names.environment place alternative) (.statements :: goals) names := by
  cases alternative with
  | absent =>
      refine .of_eq (refusal?_alternative ?_) .nil
      intro isElse
      exact ends (congrArg (Option.map Terminal.kind) isElse)
  | present body =>
      exact .cons _ rfl (.mark (.marks [.rightBrace] (comes_statements body _)))

/-- Statements in front of the closing brace of their block. -/
theorem comes_statements {goals : List Goal} {rest : List Terminal} (statements : Statements)
    (place : Nat) :
    Comes (.statements :: goals) names place statements.yield (.mark .rightBrace :: rest)
      (statementsRequests names.environment place statements) (Goal.mark .rightBrace :: goals)
      names := by
  cases statements with
  | nil => exact .of_eq (refusal?_statements (by simp [Statements.yield])) .nil
  | cons first others =>
      refine .append (comes_statement first _ ?_) (comes_statements others _) rfl
      rw [nextKind?_append]
      exact others.endsChoice

end

end Statements

/-! ## Declarations -/

namespace Names

variable (names : Names)

/-- Declarations of variables of one type. -/
def declareAll (type : String) (role : Role) (list : List String) : Names :=
  list.foldl (fun names name => names.declare name type role) names

/-- Declaring names of one role counts them for that role alone. -/
theorem count_declareAll (type : String) (role counted : Role) (list : List String) :
    (names.declareAll type role list).count counted =
      names.count counted + if role = counted then list.length else 0 := by
  induction list generalizing names with
  | nil => simp [declareAll]
  | cons name list inductionHypothesis =>
      rw [declareAll, List.foldl_cons, ← declareAll, inductionHypothesis, count_declare,
        List.length_cons]
      split <;> omega

/-- Declarations of parameters. -/
def declareParameters (parameters : List Parameter) : Names :=
  { names with
    ofSubroutine := names.ofSubroutine ++
      parameters.map fun parameter => ⟨parameter.name, parameter.type.text, .argument⟩ }

/-- Declarations of local variables. -/
def declareLocals (locals : List Variables) : Names :=
  { names with
    ofSubroutine := names.ofSubroutine ++ locals.flatMap (Variables.declarations .local) }

/-- Declarations of class variables. -/
def declareGroups (groups : List ClassVariables) : Names :=
  { names with
    ofClass := names.ofClass ++
      groups.flatMap fun declared => declared.group.declarations declared.storage }

@[simp] theorem declareParameters_nil : names.declareParameters [] = names := by
  simp [declareParameters]

/-- Parameters are declared from the first one on. -/
theorem declareParameters_cons (first : Parameter) (others : List Parameter) :
    names.declareParameters (first :: others) =
      (names.declare first.name first.type.text .parameter).declareParameters others := by
  simp [declareParameters, declare]

/-- Local variables of one type are declared in the subroutine. -/
theorem declareAll_local (type : String) (list : List String) :
    names.declareAll type .local list =
      { names with
        ofSubroutine := names.ofSubroutine ++ list.map fun name => ⟨name, type, .local⟩ } := by
  induction list generalizing names with
  | nil => simp [declareAll]
  | cons name list inductionHypothesis =>
      rw [declareAll, List.foldl_cons, ← declareAll, inductionHypothesis, declare]
      simp

@[simp] theorem declareLocals_nil : names.declareLocals [] = names := by
  simp [declareLocals]

/-- Local variables are declared group by group. -/
theorem declareLocals_cons (first : Variables) (others : List Variables) :
    names.declareLocals (first :: others) =
      (names.declareAll first.type.text .local first.names).declareLocals others := by
  rw [declareAll_local]
  simp [declareLocals, Variables.declarations]

/-- Variables of a class of one type are declared in the class. -/
theorem declareAll_ofClass (type : String) (storage : ClassStorage) (list : List String) :
    names.declareAll type (.ofClass storage) list =
      { names with
        ofClass := names.ofClass ++ list.map fun name => ⟨name, type, storage⟩ } := by
  induction list generalizing names with
  | nil => simp [declareAll]
  | cons name list inductionHypothesis =>
      rw [declareAll, List.foldl_cons, ← declareAll, inductionHypothesis, declare]
      simp

@[simp] theorem declareGroups_nil : names.declareGroups [] = names := by
  simp [declareGroups]

/-- Variables of a class are declared group by group. -/
theorem declareGroups_cons (first : ClassVariables) (others : List ClassVariables) :
    names.declareGroups (first :: others) =
      (names.declareAll first.group.type.text (.ofClass first.storage)
        first.group.names).declareGroups others := by
  rw [declareAll_ofClass]
  simp [declareGroups, Variables.declarations]

end Names

section Declarations

variable {goals others : List Goal} {names names' : Names} {place : Nat} {role : Role}
  {type : String} {phrase rest : List Terminal} {requests : List Request}

/-- A variable comes with a request for room. -/
theorem comes_variable {text : String}
    (behind : Comes goals (names.declare text type role) (place + 1) phrase rest requests others
      names') :
    Comes (.variable role type :: goals) names place (.name text :: phrase) rest
      (.room role.items (names.count role) place :: requests) others names' := by
  refine .cons_request ?_ behind
  rw [refusal?_cons, List.head?_cons, Goal.react, Reaction.expectName, Request.room]
  by_cases few : names.count role < maxCount
  · rw [if_pos few, decide_eq_true few, if_pos rfl]
    rfl
  · rw [if_neg few, decide_eq_false few]
    rfl

/-- Further names of a group come with a request for room each. -/
theorem comes_moreVariables (list : List String) :
    Comes (.moreVariables role type :: goals) names place
      (list.flatMap (fun name => [.mark .comma, .name name]) ++ [.mark .semicolon]) rest
      (Request.rooms role.items 2 (names.count role) (place + 1) list.length) goals
      (names.declareAll type role list) := by
  induction list generalizing names place with
  | nil => exact .cons [] rfl .nil
  | cons name list inductionHypothesis =>
      refine .cons [.variable role type, .moreVariables role type] rfl (comes_variable ?_)
      have counted : (names.declare name type role).count role = names.count role + 1 := by
        rw [Names.count_declare, if_pos rfl]
      rw [← counted]
      exact inductionHypothesis

/-- Variables of one type, up to the semicolon. -/
theorem comes_variables (group : Variables) :
    Comes (.variableList role :: goals) names place group.yield rest
      (Request.rooms role.items 2 (names.count role) (place + 1) group.names.length) goals
      (names.declareAll group.type.text role group.names) := by
  refine .cons [.variable role group.type.text, .moreVariables role group.type.text] ?_
    (comes_variable ?_)
  · cases group.type <;> rfl
  · have counted : (names.declare group.first group.type.text role).count role =
        names.count role + 1 := by
      rw [Names.count_declare, if_pos rfl]
    rw [← counted]
    exact comes_moreVariables group.others

/-- A parameter comes with a request for room. -/
theorem comes_parameter {parameter : Parameter} {middle : List Goal}
    (behind : Comes middle (names.declare parameter.name parameter.type.text .parameter)
      (place + 2) phrase rest requests others names') :
    Comes (.parameter :: middle) names place (parameter.yield ++ phrase) rest
      (.room .parameters (names.count .parameter) (place + 1) :: requests) others names' := by
  refine .cons [.variable .parameter parameter.type.text] ?_ (comes_variable behind)
  cases parameter.type <;> rfl

/-- Parameters behind others. -/
theorem comes_moreParameters (parameters : List Parameter) :
    Comes (.moreParameters :: goals) names place
      (parameters.flatMap fun parameter => .mark .comma :: parameter.yield)
      (.mark .rightParen :: rest)
      (Request.rooms .parameters 3 (names.count .parameter) (place + 2) parameters.length)
      (Goal.mark .rightParen :: goals) (names.declareParameters parameters) := by
  induction parameters generalizing names place with
  | nil =>
      rw [Names.declareParameters_nil]
      exact .of_eq (refusal?_moreParameters (by simp)) .nil
  | cons first others inductionHypothesis =>
      have counted : (names.declare first.name first.type.text .parameter).count .parameter =
          names.count .parameter + 1 := by
        rw [Names.count_declare, if_pos rfl]
      rw [Names.declareParameters_cons, List.length_cons, Request.rooms, ← counted]
      refine .cons [.parameter, .moreParameters] rfl (comes_parameter inductionHypothesis)

/-- The parameters of a subroutine. -/
theorem comes_parameters (parameters : List Parameter) :
    Comes (.parameters :: goals) names place (parametersYield parameters)
      (.mark .rightParen :: rest)
      (Request.rooms .parameters 3 (names.count .parameter) (place + 1) parameters.length)
      (Goal.mark .rightParen :: goals) (names.declareParameters parameters) := by
  cases parameters with
  | nil =>
      rw [Names.declareParameters_nil]
      exact .of_eq rfl .nil
  | cons first others =>
      have counted : (names.declare first.name first.type.text .parameter).count .parameter =
          names.count .parameter + 1 := by
        rw [Names.count_declare, if_pos rfl]
      rw [Names.declareParameters_cons, List.length_cons, Request.rooms, ← counted]
      refine .of_eq (refusal?_parameters ?_) (comes_parameter (comes_moreParameters others))
      rw [parametersYield, Parameter.yield]
      cases first.type <;> simp [TypeName.terminal]

/-- Declarations of local variables, each behind its word. -/
theorem comes_locals (locals : List Variables) :
    Comes (.body :: goals) names place (localsYield locals) rest
      (localRequests (names.count .local) place locals) (.body :: goals)
      (names.declareLocals locals) := by
  induction locals generalizing names place with
  | nil =>
      rw [Names.declareLocals_nil]
      exact .nil
  | cons first others inductionHypothesis =>
      have counted : (names.declareAll first.type.text .local first.names).count .local =
          names.count .local + first.names.length := by
        rw [Names.count_declareAll, if_pos rfl]
      rw [Names.declareLocals_cons, localRequests, ← counted]
      exact .cons [.variableList .local, .body] rfl
        (.append (comes_variables first) inductionHypothesis rfl)

/-- Declarations of class variables. -/
theorem comes_groups (groups : List ClassVariables) :
    Comes (.classBody :: goals) names place (groups.flatMap ClassVariables.yield) rest
      (groupRequests names.ofClass place groups) (.classBody :: goals)
      (names.declareGroups groups) := by
  induction groups generalizing names place with
  | nil =>
      rw [Names.declareGroups_nil]
      exact .nil
  | cons first others inductionHypothesis =>
      have declared : names.ofClass ++ first.group.declarations first.storage =
          (names.declareAll first.group.type.text (.ofClass first.storage)
            first.group.names).ofClass := by
        rw [Names.declareAll_ofClass]
        rfl
      rw [Names.declareGroups_cons, groupRequests, declared]
      refine .append (.cons [.variableList (.ofClass first.storage), .classBody] ?_
        (comes_variables first.group)) inductionHypothesis rfl
      cases first.storage <;> rfl

/-- A subroutine, from its first word to its closing brace. -/
theorem comes_subroutine (subroutine : Subroutine) :
    Comes (.subroutines :: goals) names place subroutine.yield rest
      (subroutineRequests names.className names.ofClass place subroutine) (.subroutines :: goals)
      { names with ofSubroutine := subroutine.declarations names.className } := by
  have kind : Goal.react names (some (.keyword subroutine.kind.word)) .subroutines =
      .read (Goal.subroutine subroutine.kind) names.openSubroutine := by
    cases subroutine.kind <;> rfl
  have result : Goal.react names.openSubroutine (some (resultTerminal subroutine.result))
      .returnType = .read [] names.openSubroutine := by
    cases subroutine.result with
    | none => rfl
    | some type => cases type <;> rfl
  have counted : ((names.openSubroutine.enterSubroutine subroutine.kind).declareParameters
      subroutine.parameters).count .local = 0 := by
    refine Declaration.count_eq_zero fun declaration member => ?_
    rcases List.mem_append.1 member with receiver | parameter
    · revert receiver
      cases subroutine.kind <;>
        simp +contextual [Names.enterSubroutine, SubroutineKind.receiver]
    · rw [subroutine.storage_of_parameterDeclarations _ parameter]
      nofun
  refine .cons _ kind (.cons [] result (.cons [] rfl (.mark (.marks [.rightBrace]
    (.append (.append (.marks [.rightParen, .leftBrace] (comes_parameters subroutine.parameters))
      (counted ▸ comes_locals subroutine.locals) ?_)
      (.of_eq (refusal?_body ?_) (comes_statements subroutine.body _)) ?_)))))
  · simp
    omega
  · intro isVar
    have notVar := subroutine.body.not_var
    rw [show some (Token.Kind.punctuation .rightBrace) =
      nextKind? (.mark .rightBrace :: rest) from rfl, ← nextKind?_append, nextKind?] at notVar
    rw [show (subroutine.body.yield ++ .mark .rightBrace :: rest).head? = _ from isVar] at notVar
    cases notVar
  · simp
    omega

/-- The subroutines of a class in front of its closing brace. -/
theorem comes_subroutines (subroutines : List Subroutine) :
    ∃ ofSubroutine, Comes (.subroutines :: goals) names place
      (subroutines.flatMap Subroutine.yield) (.mark .rightBrace :: rest)
      (subroutinesRequests names.className names.ofClass place subroutines)
      (Goal.mark .rightBrace :: goals) { names with ofSubroutine } := by
  induction subroutines generalizing names place with
  | nil => exact ⟨_, .of_eq (refusal?_subroutines (by simp)) .nil⟩
  | cons first others inductionHypothesis =>
      obtain ⟨ofSubroutine, comes⟩ := inductionHypothesis
      exact ⟨ofSubroutine, .append (comes_subroutine first) comes rfl⟩

/-- Subroutines in front of a closing brace do not begin like declarations of class variables. -/
theorem head?_subroutines_ne (subroutines : List Subroutine) (storage : ClassStorage) :
    (subroutines.flatMap Subroutine.yield ++ .mark .rightBrace :: rest).head? ≠
      some (.keyword (storageWord storage)) := by
  intro isWord
  have other := not_opensClassVariables subroutines
  rw [show some (Token.Kind.punctuation .rightBrace) =
    nextKind? (.mark .rightBrace :: rest) from rfl, ← nextKind?_append, nextKind?, isWord] at other
  cases storage <;> cases other

end Declarations

/-- The first error in a tree is its first request that is not met. -/
theorem fault?_yield (tree : ClassDeclaration) :
    fault? tree.yield = firstUnmet (classRequests tree) := by
  obtain ⟨ofSubroutine, subroutines⟩ := comes_subroutines tree.subroutines
  have comes : Comes classGoals noNames 0 tree.yield [] (classRequests tree) []
      ⟨tree.name, tree.declarations, ofSubroutine⟩ := by
    refine .cons [] rfl (.cons [] rfl (.mark (.marks [.rightBrace]
      (.append (comes_groups tree.groups)
        (.of_eq (refusal?_classBody (head?_subroutines_ne tree.subroutines)) subroutines) rfl))))
  rw [Comes, List.append_nil] at comes
  rw [fault?, comes]
  exact Option.or_none

end Prediction

end JackCompiler
