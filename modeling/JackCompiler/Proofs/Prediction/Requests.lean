import JackCompiler.Proofs.Prediction.Goal

/-!
# Requests of a tree

What a tree asks for beyond its grammar, in the order and at the places where it is found out: that
names stand for variables, and that what is counted fits in a word. Among the terminals of a tree
the first error is the first request that is not met.
-/

namespace JackCompiler

open Grammar

/-- The comma in front of arguments is all that is more when they stand behind others. -/
theorem Grammar.Arguments.length_following (arguments : Arguments) :
    arguments.following.length ≤ arguments.yield.length + 1 := by
  cases arguments with
  | nil => exact Nat.zero_le _
  | cons first others => simp [Arguments.yield, Arguments.following]

namespace Prediction

/-- What a tree can lack. -/
inductive Lack
  /-- A variable that a name stands for. -/
  | variable (name : String)
  /-- Room for one more. -/
  | room (items : Countable)
  deriving DecidableEq

/-- The error of what is lacking. -/
def Lack.error : Lack → ErrorKind
  | .variable name => .unresolvedSymbol name
  | room items => .limitExceeded items

/-- What is asked for at some place: what is lacking if it is not met, and whether it is. -/
structure Request where
  place : Nat
  lack : Lack
  met : Bool

namespace Request

/-- The refusal of a request that is not met. -/
def refusal? (request : Request) : Option Refusal :=
  if request.met then none else some ⟨request.place, request.lack.error⟩

/-- A name has to stand for a variable. -/
def visible (environment : Environment) (name : String) (place : Nat) : Request :=
  ⟨place, .variable name, (environment.place? name).isSome⟩

/-- The words that a call passes have to be countable. -/
def countable (words place : Nat) : Request :=
  ⟨place, .room .arguments, words ≤ maxCount⟩

/-- Behind a number of declarations there has to be room for one more. -/
def room (items : Countable) (number place : Nat) : Request :=
  ⟨place, .room items, number < maxCount⟩

/-- Room is asked for as often as there are declarations, each some places behind the one before. -/
def rooms (items : Countable) (step : Nat) : (number place count : Nat) → List Request
  | _, _, 0 => []
  | number, place, count + 1 =>
      room items number place :: rooms items step (number + 1) (place + step) count

end Request

/-- The refusal for the first request that is not met. -/
def firstUnmet (requests : List Request) : Option Refusal := requests.findSome? Request.refusal?

section Requests

variable {requests others : List Request} {request : Request} {rest : Option Refusal}

@[simp] theorem firstUnmet_nil : firstUnmet [] = none := rfl

/-- The first refusal of all is that of the first request, or else the first one of the others. -/
theorem firstUnmet_cons :
    firstUnmet (request :: requests) = request.refusal?.or (firstUnmet requests) := by
  rw [firstUnmet, List.findSome?_cons, firstUnmet]
  cases request.refusal? <;> rfl

/-- What the earlier requests refuse comes before what the later ones do. -/
@[simp] theorem firstUnmet_append :
    firstUnmet (requests ++ others) = (firstUnmet requests).or (firstUnmet others) :=
  List.findSome?_append

/-- A request that is met leaves the refusal to those behind it. -/
theorem firstUnmet_cons_or :
    (firstUnmet (request :: requests)).or rest =
      if request.met then (firstUnmet requests).or rest
      else some ⟨request.place, request.lack.error⟩ := by
  rw [firstUnmet_cons, Request.refusal?]
  split <;> rfl

/-- The first request that is not met stands behind requests that are. -/
theorem exists_of_firstUnmet {refusal : Refusal} (unmet : firstUnmet requests = some refusal) :
    ∃ earlier lack later, requests = earlier ++ ⟨refusal.place, lack, false⟩ :: later ∧
      refusal.error = lack.error ∧ ∀ request ∈ earlier, request.met := by
  obtain ⟨earlier, ⟨place, lack, isMet⟩, later, rfl, isUnmet, met⟩ :=
    List.findSome?_eq_some_iff.1 unmet
  cases isMet with
  | true => cases isUnmet
  | false =>
      cases isUnmet
      refine ⟨earlier, lack, later, rfl, rfl, fun request member => ?_⟩
      have isMet := met request member
      unfold Request.refusal? at isMet
      split at isMet
      · next met => exact met
      · cases isMet

end Requests

/-! ## Expressions -/

section Environments

variable (environment : Environment)

mutual

/-- The requests of an expression whose first terminal has a given place. -/
def expressionRequests (place : Nat) : Expression → List Request
  | .mk first others =>
      termRequests place first ++ operandRequests (place + first.yield.length) others

/-- The requests of operands, each one behind its operator. -/
def operandRequests (place : Nat) : Operands → List Request
  | .nil => []
  | .cons _ operand others =>
      termRequests (place + 1) operand ++
        operandRequests (place + 1 + operand.yield.length) others

/-- The requests of a term: names, arrays and receivers of calls are to be visible. -/
def termRequests (place : Nat) : Term → List Request
  | .integer _ | .string _ | .constant _ => []
  | .name text => [.visible environment text place]
  | .element array index =>
      .visible environment array place :: expressionRequests (place + 2) index
  | .call call => callRequests place call
  | .group inner => expressionRequests (place + 1) inner
  | .unary _ operand => termRequests (place + 1) operand

/-- A method call also passes the object. -/
def callRequests (place : Nat) : Call → List Request
  | .own _ arguments => argumentRequests 0 true (place + 1) arguments
  | .qualified owner _ arguments =>
      argumentRequests 0 (environment.place? owner).isSome (place + 3) arguments

/-- The requests of arguments behind a mark at a given place and behind a number of others. Each is
counted when it ends, and in the end also the receiver. -/
def argumentRequests (number : Nat) (receiver : Bool) (place : Nat) : Arguments → List Request
  | .nil => [.countable (number + receiver.toNat) place]
  | .cons first others =>
      expressionRequests (place + 1) first ++
        .countable (number + 1) (place + first.yield.length) ::
          argumentRequests (number + 1) receiver (place + 1 + first.yield.length) others

end

/-! ## Statements -/

mutual

/-- The requests of a statement whose first terminal has a given place. -/
def statementRequests (place : Nat) : Statement → List Request
  | .assign target value =>
      .visible environment target (place + 1) ::
        expressionRequests environment (place + 3) value
  | .assignElement array index value =>
      .visible environment array (place + 1) ::
        (expressionRequests environment (place + 3) index ++
          expressionRequests environment (place + 3 + index.yield.length + 2) value)
  | .choice test body alternative =>
      expressionRequests environment (place + 2) test ++
        statementsRequests (place + 2 + test.yield.length + 2) body ++
        alternativeRequests (place + 2 + test.yield.length + 2 + body.yield.length + 1) alternative
  | .loop test body =>
      expressionRequests environment (place + 2) test ++
        statementsRequests (place + 2 + test.yield.length + 2) body
  | .perform call => callRequests environment (place + 1) call
  | .return none => []
  | .return (some value) => expressionRequests environment (place + 1) value

/-- The requests of statements, one statement behind the other. -/
def statementsRequests (place : Nat) : Statements → List Request
  | .nil => []
  | .cons first others =>
      statementRequests place first ++ statementsRequests (place + first.yield.length) others

/-- The requests of an alternative, whose block is behind its keyword and its brace. -/
def alternativeRequests (place : Nat) : Alternative → List Request
  | .absent => []
  | .present body => statementsRequests (place + 2) body

end

end Environments

/-! ## Declarations -/

/-- The requests of declarations of class variables behind other declarations. -/
def groupRequests (declared : List (Declaration ClassStorage)) (place : Nat) :
    List ClassVariables → List Request
  | [] => []
  | first :: others =>
      Request.rooms (Role.ofClass first.storage).items 2 (Declaration.count declared first.storage)
          (place + 2) first.group.names.length ++
        groupRequests (declared ++ first.group.declarations first.storage)
          (place + first.yield.length) others

/-- The requests of declarations of local variables behind a number of others. -/
def localRequests (number place : Nat) : List Variables → List Request
  | [] => []
  | first :: others =>
      Request.rooms .localVariables 2 number (place + 2) first.names.length ++
        localRequests (number + first.names.length) (place + 1 + first.yield.length) others

section Classes

variable (className : String) (ofClass : List (Declaration ClassStorage))

/-- The requests of a subroutine whose first word has a given place. The receiver of a method counts
as a parameter. -/
def subroutineRequests (place : Nat) (subroutine : Subroutine) : List Request :=
  let opened := place + 4 + (parametersYield subroutine.parameters).length + 2
  Request.rooms .parameters 3
      (Declaration.count (subroutine.kind.receiver className) .argument) (place + 5)
      subroutine.parameters.length ++
    localRequests 0 opened subroutine.locals ++
    statementsRequests (subroutine.environment className ofClass)
      (opened + (localsYield subroutine.locals).length) subroutine.body

/-- The requests of subroutines, one subroutine behind the other. -/
def subroutinesRequests (place : Nat) : List Subroutine → List Request
  | [] => []
  | first :: others =>
      subroutineRequests className ofClass place first ++
        subroutinesRequests (place + first.yield.length) others

end Classes

/-- The requests of a class, in the order in which they come up. -/
def classRequests (tree : ClassDeclaration) : List Request :=
  groupRequests [] 3 tree.groups ++
    subroutinesRequests tree.name tree.declarations
      (3 + (tree.groups.flatMap ClassVariables.yield).length) tree.subroutines

/-! ## Order -/

/-- Requests come up in the order of their places, from one place on and in front of another. -/
structure Ordered (start stop : Nat) (requests : List Request) : Prop where
  sorted : requests.Pairwise fun earlier later => earlier.place ≤ later.place
  within : ∀ request ∈ requests, start ≤ request.place ∧ request.place < stop

namespace Ordered

variable {start middle middle' stop start' stop' : Nat} {requests others : List Request}
  {request : Request}

theorem nil : Ordered start stop [] := ⟨.nil, List.forall_mem_nil _⟩

/-- Requests between two places are between any places around them. -/
theorem mono (ordered : Ordered start stop requests) (sooner : start' ≤ start)
    (later : stop ≤ stop') : Ordered start' stop' requests := by
  refine ⟨ordered.sorted, fun request member => ?_⟩
  have within := ordered.within request member
  omega

/-- Requests in front of a place and requests from about there on are in order together. -/
theorem append (first : Ordered start middle requests) (second : Ordered middle' stop others)
    (order : middle ≤ middle' + 1) (sooner : start ≤ middle') (later : middle ≤ stop) :
    Ordered start stop (requests ++ others) := by
  refine ⟨List.pairwise_append.2 ⟨first.sorted, second.sorted, ?_⟩, ?_⟩
  · intro request member other otherMember
    have within := first.within request member
    have otherWithin := second.within other otherMember
    omega
  · intro request member
    rcases List.mem_append.1 member with isFirst | isSecond
    · have within := first.within request isFirst
      omega
    · have within := second.within request isSecond
      omega

/-- A request at a place goes in front of requests that come later. -/
theorem cons (start : Nat) (here : request.place = start) (second : Ordered middle stop requests)
    (order : start ≤ middle) (inside : start < stop) :
    Ordered start stop (request :: requests) := by
  refine ⟨List.pairwise_cons.2 ⟨fun other member => ?_, second.sorted⟩,
    List.forall_mem_cons.2 ⟨by omega, fun other member => ?_⟩⟩
  · have within := second.within other member
    omega
  · have within := second.within other member
    omega

/-- A request on its own is in order. -/
theorem single (here : request.place = start) : Ordered start (start + 1) [request] :=
  .cons start here .nil (Nat.le_refl start) (Nat.lt_succ_self start)

end Ordered

section Environments

variable {environment : Environment}

mutual

/-- The requests of an expression are in order, at places of its terminals. -/
theorem ordered_expression (expression : Expression) (place : Nat) :
    Ordered place (place + expression.yield.length)
      (expressionRequests environment place expression) := by
  cases expression with
  | mk first others =>
      rw [Expression.yield, List.length_append]
      exact (ordered_term first place).append
        ((ordered_operands others _).mono (Nat.le_refl _) (by omega)) (by omega) (by omega) (by omega)

/-- The requests of operands are in order, at places of their terminals. -/
theorem ordered_operands (operands : Operands) (place : Nat) :
    Ordered place (place + operands.yield.length)
      (operandRequests environment place operands) := by
  cases operands with
  | nil => exact .nil
  | cons operator operand others =>
      rw [Operands.yield, List.length_append, List.length_cons]
      exact ((ordered_term operand (place + 1)).mono (by omega) (Nat.le_refl _)).append
        ((ordered_operands others _).mono (Nat.le_refl _) (by omega)) (by omega) (by omega) (by omega)

/-- The requests of a term are in order, at places of its terminals. -/
theorem ordered_term (term : Term) (place : Nat) :
    Ordered place (place + term.yield.length) (termRequests environment place term) := by
  cases term with
  | integer value => exact .nil
  | string contents => exact .nil
  | constant value => exact .nil
  | name text => exact .single rfl
  | element array index =>
      simp only [Term.yield, List.length_append, List.length_cons, List.length_nil]
      exact .cons place rfl ((ordered_expression index _).mono (Nat.le_refl _) (by omega))
        (Nat.le_add_right _ _) (by omega)
  | call call => exact ordered_call call place
  | group inner =>
      simp only [Term.yield, List.length_append, List.length_cons, List.length_nil]
      exact (ordered_expression inner _).mono (by omega) (by omega)
  | unary operator operand =>
      simp only [Term.yield, List.length_cons]
      exact (ordered_term operand _).mono (by omega) (by omega)

/-- The requests of a call are in order, at places of its terminals. -/
theorem ordered_call (call : Call) (place : Nat) :
    Ordered place (place + call.yield.length) (callRequests environment place call) := by
  cases call with
  | own subroutine arguments =>
      have length := arguments.length_following
      simp only [Call.yield, List.length_append, List.length_cons, List.length_nil]
      exact (ordered_arguments arguments _ _ _).mono (by omega) (by omega)
  | qualified owner subroutine arguments =>
      have length := arguments.length_following
      simp only [Call.yield, List.length_append, List.length_cons, List.length_nil]
      exact (ordered_arguments arguments _ _ _).mono (by omega) (by omega)

/-- The requests of arguments are in order; the last ones may be at the closing parenthesis. -/
theorem ordered_arguments (arguments : Arguments) (number : Nat) (receiver : Bool)
    (place : Nat) :
    Ordered place (place + arguments.following.length + 1)
      (argumentRequests environment number receiver place arguments) := by
  cases arguments with
  | nil => exact .single rfl
  | cons first others =>
      simp only [Arguments.following, List.length_append, List.length_cons]
      refine ((ordered_expression first (place + 1)).mono (by omega) (Nat.le_refl _)).append
        (.cons (place + first.yield.length) rfl
          ((ordered_arguments others _ _ _).mono (Nat.le_refl _) ?_) ?_ ?_) ?_ ?_ ?_
      all_goals omega

end

mutual

/-- The requests of a statement are in order, at places of its terminals. -/
theorem ordered_statement (statement : Statement) (place : Nat) :
    Ordered place (place + statement.yield.length)
      (statementRequests environment place statement) := by
  cases statement with
  | assign target value =>
      simp only [Statement.yield, List.length_append, List.length_cons, List.length_nil]
      exact (Ordered.cons (place + 1) rfl ((ordered_expression value _).mono (Nat.le_refl _) (by omega))
        (by omega) (by omega)).mono (Nat.le_add_right place 1) (Nat.le_refl _)
  | assignElement array index value =>
      simp only [Statement.yield, List.length_append, List.length_cons, List.length_nil]
      exact (Ordered.cons (place + 1) rfl ((ordered_expression index (place + 3)).append
        ((ordered_expression value _).mono (Nat.le_refl _) (by omega)) (by omega) (by omega)
        (by omega)) (by omega) (by omega)).mono (Nat.le_add_right place 1) (Nat.le_refl _)
  | choice test body alternative =>
      simp only [Statement.yield, List.length_append, List.length_cons, List.length_nil]
      exact (((ordered_expression test (place + 2)).append (ordered_statements body _)
        (by omega) (by omega) (by omega)).append
          ((ordered_alternative alternative _).mono (Nat.le_refl _) (by omega))
          (by omega) (by omega) (by omega)).mono (by omega) (Nat.le_refl _)
  | loop test body =>
      simp only [Statement.yield, List.length_append, List.length_cons, List.length_nil]
      exact ((ordered_expression test (place + 2)).append
        ((ordered_statements body _).mono (Nat.le_refl _) (by omega))
        (by omega) (by omega) (by omega)).mono (by omega) (Nat.le_refl _)
  | perform call =>
      simp only [Statement.yield, List.length_append, List.length_cons, List.length_nil]
      exact (ordered_call call _).mono (by omega) (by omega)
  | «return» value =>
      cases value with
      | none => exact .nil
      | some value =>
          simp only [Statement.yield, List.length_append, List.length_cons, List.length_nil]
          exact (ordered_expression value _).mono (by omega) (by omega)

/-- The requests of statements are in order, at places of their terminals. -/
theorem ordered_statements (statements : Statements) (place : Nat) :
    Ordered place (place + statements.yield.length)
      (statementsRequests environment place statements) := by
  cases statements with
  | nil => exact .nil
  | cons first others =>
      rw [Statements.yield, List.length_append]
      exact (ordered_statement first place).append
        ((ordered_statements others _).mono (Nat.le_refl _) (by omega)) (by omega) (by omega)
        (by omega)

/-- The requests of an alternative are in order, at places of its terminals. -/
theorem ordered_alternative (alternative : Alternative) (place : Nat) :
    Ordered place (place + alternative.yield.length)
      (alternativeRequests environment place alternative) := by
  cases alternative with
  | absent => exact .nil
  | present body =>
      simp only [Alternative.yield, List.length_append, List.length_cons, List.length_nil]
      exact (ordered_statements body _).mono (by omega) (by omega)

end

end Environments

/-- Requests for room are in order, as far from each other as the declarations are. -/
theorem ordered_rooms (items : Countable) (step number place count : Nat) (moves : 0 < step) :
    Ordered place (place + step * count) (Request.rooms items step number place count) := by
  induction count generalizing number place with
  | zero => exact .nil
  | succ count inductionHypothesis =>
      rw [Nat.mul_succ]
      exact .cons place rfl ((inductionHypothesis _ _).mono (Nat.le_refl _) (by omega)) (by omega)
        (by omega)

/-- Phrases of the same length add up. -/
theorem length_flatMap_of_length {α β : Type} (phrase : α → List β) (size : Nat)
    (each : ∀ item, (phrase item).length = size) (list : List α) :
    (list.flatMap phrase).length = size * list.length := by
  induction list with
  | nil => rfl
  | cons first others inductionHypothesis =>
      rw [List.flatMap_cons, List.length_append, each, inductionHypothesis, List.length_cons,
        Nat.mul_succ, Nat.add_comm]

/-- A group of variables is a type, names with commas between them, and a semicolon. -/
theorem length_variables (group : Variables) :
    group.yield.length = 2 * group.names.length + 1 := by
  have others : (group.others.flatMap fun name => [Terminal.mark .comma, .name name]).length =
      2 * group.others.length := length_flatMap_of_length _ 2 (fun _ => rfl) group.others
  simp only [Variables.yield, Variables.names, List.length_append, List.length_cons, others,
    List.length_nil]
  omega

/-- The requests of the variables of a class are in order, at places of their terminals. -/
theorem ordered_groups (declared : List (Declaration ClassStorage)) (place : Nat)
    (groups : List ClassVariables) :
    Ordered place (place + (groups.flatMap ClassVariables.yield).length)
      (groupRequests declared place groups) := by
  induction groups generalizing declared place with
  | nil => exact .nil
  | cons first others inductionHypothesis =>
      have length : first.yield.length = 2 * first.group.names.length + 2 :=
        congrArg Nat.succ (length_variables first.group)
      rw [List.flatMap_cons, List.length_append]
      exact ((ordered_rooms _ 2 _ (place + 2) _ (by omega)).append
        ((inductionHypothesis _ _).mono (Nat.le_refl _) (by omega)) (by omega) (by omega)
        (by omega)).mono (Nat.le_add_right place 2) (Nat.le_refl _)

/-- The requests of local variables are in order, at places of their terminals. -/
theorem ordered_locals (number place : Nat) (locals : List Variables) :
    Ordered place (place + (localsYield locals).length) (localRequests number place locals) := by
  induction locals generalizing number place with
  | nil => exact .nil
  | cons first others inductionHypothesis =>
      have length := length_variables first
      rw [localsYield, List.flatMap_cons, List.length_append, List.length_cons, ← localsYield]
      exact ((ordered_rooms _ 2 _ (place + 2) _ (by omega)).append
        ((inductionHypothesis _ _).mono (Nat.le_refl _) (by omega)) (by omega) (by omega)
        (by omega)).mono (Nat.le_add_right place 2) (Nat.le_refl _)

/-- Parameters are three terminals each, without a comma behind the last one. -/
theorem length_parametersYield (parameters : List Parameter) :
    3 * parameters.length ≤ (parametersYield parameters).length + 1 := by
  cases parameters with
  | nil => exact Nat.zero_le _
  | cons first others =>
      have length : (others.flatMap fun parameter =>
          Terminal.mark .comma :: parameter.yield).length = 3 * others.length :=
        length_flatMap_of_length _ 3 (fun _ => rfl) others
      rw [parametersYield, List.length_append, length, List.length_cons]
      show _ ≤ 2 + _ + 1
      omega

section Classes

variable {className : String} {ofClass : List (Declaration ClassStorage)}

/-- The requests of a subroutine are in order, at places of its terminals. -/
theorem ordered_subroutine (place : Nat) (subroutine : Subroutine) :
    Ordered place (place + subroutine.yield.length)
      (subroutineRequests className ofClass place subroutine) := by
  have length := length_parametersYield subroutine.parameters
  simp only [Subroutine.yield, List.length_append, List.length_cons, List.length_nil]
  refine ((((ordered_rooms _ 3 _ (place + 5) _ (by omega)).append (ordered_locals 0 _ _)
    ?_ ?_ ?_).append ((ordered_statements _ _).mono (Nat.le_refl _) ?_)
    ?_ ?_ ?_).mono (Nat.le_add_right place 5) (Nat.le_refl _))
  all_goals omega

/-- The requests of subroutines are in order, at places of their terminals. -/
theorem ordered_subroutines (place : Nat) (subroutines : List Subroutine) :
    Ordered place (place + (subroutines.flatMap Subroutine.yield).length)
      (subroutinesRequests className ofClass place subroutines) := by
  induction subroutines generalizing place with
  | nil => exact .nil
  | cons first others inductionHypothesis =>
      rw [List.flatMap_cons, List.length_append]
      exact (ordered_subroutine place first).append
        ((inductionHypothesis _).mono (Nat.le_refl _) (by omega)) (by omega) (by omega) (by omega)

end Classes

/-- The requests of a class come up in the order of their places. -/
theorem sorted_classRequests (tree : ClassDeclaration) :
    (classRequests tree).Pairwise fun earlier later => earlier.place ≤ later.place :=
  ((ordered_groups [] 3 tree.groups).append (ordered_subroutines _ tree.subroutines)
    (Nat.le_succ _) (Nat.le_add_right _ _) (Nat.le_add_right _ _)).sorted

end Prediction

end JackCompiler
