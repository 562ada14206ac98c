import JackCompiler.Proofs.Prediction.Prefixes
import JackCompiler.Proofs.Prediction.Verdict

/-!
# The earliest offending token

An error is reported at the first token that is at fault. What stands in front of it is the
beginning of some class, and if the error is one of grammar it is not with the token itself. A name
that stands for nothing is the first of those that have to stand for a variable.
-/

namespace JackCompiler

open Grammar

namespace Prediction

/-! ## Offences -/

/-- Whether the name at a place in a class is the first that has to stand for a variable and does
not: what is asked for in front of it is met. -/
def FirstUnresolved (tree : ClassDeclaration) (place : Nat) (name : String) : Prop :=
  ⟨place, .variable name, false⟩ ∈ classRequests tree ∧
    ∀ request ∈ classRequests tree, request.place < place → request.met

/-- Whether the terminal at a place is a name that has to stand for a variable, as the target of an
assignment or because it is not called, and is the first that does not. -/
structure Unresolved (terminals : List Terminal) (place : Nat) (name : String) : Prop where
  isName : terminals[place]? = some (.name name)
  use : (∃ before, place = before + 1 ∧ terminals[before]? = some (.keyword .let)) ∨
    NotCalled terminals[place + 1]?
  /-- Up to the name they can be completed to a class without calling it. -/
  viable : ∃ (tree : ClassDeclaration) (rest : List Terminal),
    tree.yield = terminals.take (place + 1) ++ rest ∧ NotCalled rest.head?
  /-- However that is done, the name is the first that is unresolved. -/
  first : ∀ (tree : ClassDeclaration) (rest : List Terminal),
    tree.yield = terminals.take (place + 1) ++ rest → NotCalled rest.head? →
      FirstUnresolved tree place name

/-- Whether an error of a kind is right at a place, if it is the first. -/
def Offends (terminals : List Terminal) (place : Nat) : ErrorKind → Prop
  | .lexical _ => False
  | .grammatical .unexpectedEnd => place = terminals.length ∧ ¬IsClass terminals
  | .grammatical (.trailingInput actual) =>
      terminals[place]?.map Terminal.kind = some actual ∧ IsClass (terminals.take place) ∧
        ¬Viable (terminals.take (place + 1))
  | .grammatical (.unexpected _ actual) | .grammatical (.unexpectedAny _ actual)
  | .grammatical (.unexpectedInExpression actual) =>
      terminals[place]?.map Terminal.kind = some actual ∧ ¬Viable (terminals.take (place + 1))
  | .unresolvedSymbol name => Unresolved terminals place name
  | .limitExceeded _ => place < terminals.length

section Offences

variable {terminals front rest : List Terminal} {goals : List Goal} {names : Names}
  {terminal : Terminal} {back place : Nat}

/-- In a class there are no errors of grammar. -/
theorem exists_of_fault {tree : ClassDeclaration} {refusal : Refusal}
    (foretold : fault? tree.yield = some refusal) :
    ∃ lack, refusal.error = lack.error ∧ ⟨refusal.place, lack, false⟩ ∈ classRequests tree ∧
      ∀ request ∈ classRequests tree, request.place < refusal.place → request.met := by
  rw [fault?_yield] at foretold
  obtain ⟨earlier, lack, later, shape, isLack, met⟩ := exists_of_firstUnmet foretold
  have sorted := sorted_classRequests tree
  rw [shape] at sorted ⊢
  refine ⟨lack, isLack, List.mem_append_right _ List.mem_cons_self, ?_⟩
  intro request member before
  rcases List.mem_append.1 member with isEarlier | isLater
  · exact met request isEarlier
  · have behind := (List.pairwise_append.1 sorted).2.1
    rcases List.mem_cons.1 isLater with rfl | isLater
    · exact absurd before (Nat.lt_irrefl _)
    · exact absurd ((List.pairwise_cons.1 behind).1 request isLater) (Nat.not_le.2 before)

theorem firstUnresolved_of_fault {tree : ClassDeclaration} {name : String}
    (foretold : fault? tree.yield = some ⟨place, .unresolvedSymbol name⟩) :
    FirstUnresolved tree place name := by
  obtain ⟨lack, isLack, member, met⟩ := exists_of_fault foretold
  cases lack with
  | «variable» text =>
      cases isLack
      exact ⟨member, met⟩
  | room items => cases isLack

/-- Behind an error of grammar there is no class. -/
theorem not_isClass_of_refuse {error : SyntaxError} (reached : Reaches front goals names)
    (settles : settle names rest.head? goals = .refuse back (.grammatical error)) :
    ¬IsClass (front ++ rest) := by
  rintro ⟨tree, shape⟩
  have foretold : fault? tree.yield = some ⟨front.length - back, .grammatical error⟩ := by
    rw [shape, reached.fault?_append]
    cases rest with
    | nil => rw [refusal?, ← List.head?_nil, settles]
    | cons terminal others => rw [refusal?, ← List.head?_cons, settles]
  obtain ⟨lack, isLack, _⟩ := exists_of_fault foretold
  cases lack with
  | «variable» name => cases isLack
  | room items => cases isLack

theorem not_viable_of_refuse {error : SyntaxError} (reached : Reaches front goals names)
    (settles : settle names (some terminal) goals = .refuse back (.grammatical error)) :
    ¬Viable (front ++ [terminal]) := by
  rintro ⟨others, isClass⟩
  rw [List.append_assoc, List.singleton_append] at isClass
  rw [show some terminal = (terminal :: others).head? from rfl] at settles
  exact not_isClass_of_refuse reached settles isClass

/-- A terminal that does not fit what is left offends. -/
theorem offends_of_mismatch {error : Token.Kind → SyntaxError} (mismatch : Mismatch error)
    (reached : Reaches front goals names)
    (settles : settle names rest.head? goals = .refuse back (unexpected rest.head? error)) :
    Offends (front ++ rest) front.length (unexpected rest.head? error) := by
  cases rest with
  | nil =>
      have notClass := not_isClass_of_refuse reached settles
      rw [List.append_nil] at notClass ⊢
      exact ⟨rfl, notClass⟩
  | cons terminal rest =>
      have notViable : ¬Viable ((front ++ terminal :: rest).take (front.length + 1)) := by
        rw [List.take_length_add_append]
        exact not_viable_of_refuse reached settles
      have kind : (front ++ terminal :: rest)[front.length]?.map Terminal.kind =
          some terminal.kind := by
        simp
      cases mismatch with
      | one expected => exact ⟨kind, notViable⟩
      | any expected => exact ⟨kind, notViable⟩
      | inExpression => exact ⟨kind, notViable⟩

/-- The target of an assignment that stands for nothing offends. -/
theorem unresolved_of_target {name : String} (reached : Reaches front (.target :: goals) names)
    (unknown : ¬(names.environment.place? name).isSome) :
    Unresolved (front ++ .name name :: rest) front.length name where
  isName := by simp
  use := by
    obtain ⟨before, rfl⟩ := List.getLast?_eq_some_iff.1 reached.fresh.1
    exact .inl ⟨before.length, by simp, by simp⟩
  viable := by
    let value : Expression := .mk (.integer 0) .nil
    obtain ⟨others, meets⟩ := exists_phrases goals
    obtain ⟨tree, shape⟩ := reached.isClass
      ⟨_, others, ⟨.assign name value, rfl⟩, meets, rfl⟩
    refine ⟨tree, .mark .equals :: .integer 0 :: .mark .semicolon :: others, ?_, by simp [NotCalled]⟩
    rw [shape, List.take_length_add_append, List.append_assoc]
    rfl
  first := by
    intro tree others shape _
    have reaction : Goal.react names (some (.name name)) .target =
        .refuse 0 (.unresolvedSymbol name) := if_neg unknown
    refine firstUnresolved_of_fault ?_
    rw [List.take_length_add_append, List.append_assoc] at shape
    rw [shape, List.take_succ_cons, List.take_zero, reached.fault?_append, List.singleton_append,
      refusal?_of_refuse reaction, Nat.sub_zero]

/-- A name that stands for nothing is refused when it is found that it is not called. -/
theorem react_afterName {name : String} {next : Option Terminal}
    (unknown : ¬(names.environment.place? name).isSome) (notCalled : NotCalled next) :
    Goal.react names next (.afterName name) = .refuse 1 (.unresolvedSymbol name) := by
  unfold Goal.react
  dsimp only
  split
  · exact absurd rfl notCalled.1
  · exact absurd rfl notCalled.2
  · exact if_neg unknown

/-- A name that is not called and stands for nothing offends. -/
theorem unresolved_of_name {name : String}
    (reached : Reaches (front ++ [.name name]) (.afterName name :: goals) names)
    (unknown : ¬(names.environment.place? name).isSome) (notCalled : NotCalled rest.head?) :
    Unresolved (front ++ .name name :: rest) front.length name where
  isName := by simp
  use := by
    refine .inr ?_
    rw [← List.singleton_append, ← List.append_assoc, List.getElem?_append_right (by simp)]
    simpa [List.head?_eq_getElem?] using notCalled
  viable := by
    let index : Expression := .mk (.integer 0) .nil
    obtain ⟨others, meets⟩ := exists_phrases goals
    obtain ⟨tree, shape⟩ := reached.isClass
      ⟨_, others, ⟨.element name index, rfl⟩, meets, rfl⟩
    refine ⟨tree, .mark .leftBracket :: .integer 0 :: .mark .rightBracket :: others, ?_,
      by simp [NotCalled]⟩
    rw [shape, List.take_length_add_append]
    rfl
  first := by
    intro tree others shape notCalled
    have reaction := react_afterName unknown notCalled
    refine firstUnresolved_of_fault ?_
    rw [List.take_length_add_append] at shape
    rw [shape, List.take_succ_cons, List.take_zero, reached.fault?_append,
      refusal?_of_refuse reaction]
    simp

/-- What a goal refuses is right there, and all is well up to it. -/
theorem offends_of_refuses {passed others : List Goal} {goal : Goal} {next : Option Terminal}
    {error : ErrorKind} (reached : Reaches front (passed ++ goal :: others) names)
    (settles : settle names rest.head? (passed ++ goal :: others) = .refuse back error)
    (isNext : rest.head? = next) (refuses : Refuses names goal next back error) :
    Viable ((front ++ rest).take (front.length - back)) ∧
      Offends (front ++ rest) (front.length - back) error := by
  have viable : Viable ((front ++ rest).take front.length) := by
    rw [List.take_left]
    exact reached.viable
  cases refuses with
  | unexpected _ _ mismatch =>
      subst isNext
      exact ⟨viable, offends_of_mismatch mismatch reached settles⟩
  | full _ terminal items =>
      obtain ⟨rest, rfl⟩ := List.head?_eq_some_iff.1 isNext
      exact ⟨viable, by simp [Offends]⟩
  | tooMany number receiver =>
      -- The error is about the terminal before, and there is one: no class begins with arguments.
      rcases List.eq_nil_or_concat' front with rfl | ⟨front, last, rfl⟩
      · have member : Goal.moreArguments number receiver ∈ classGoals := by
          rw [← reached.eq_classGoals]
          simp
        simp [classGoals, Goal.mark] at member
      · have before := reached.viable.of_append
        exact ⟨by simpa using before, by simp [Offends]⟩
  | target unknown =>
      obtain ⟨rest, rfl⟩ := List.head?_eq_some_iff.1 isNext
      obtain ⟨rfl, _⟩ := reached.fresh.eq_nil not_steady_target
      exact ⟨viable, unresolved_of_target reached unknown⟩
  | @afterName name _ unknown notCalled =>
      -- The name was read before what follows showed that it is not called.
      subst isNext
      obtain ⟨rfl, isLast⟩ := reached.fresh.eq_nil not_steady_afterName
      obtain ⟨front, rfl⟩ := List.getLast?_eq_some_iff.1 isLast
      have before := reached.viable.of_append
      have unresolved := unresolved_of_name reached unknown notCalled
      exact ⟨by simpa using before, by simpa [Offends] using unresolved⟩

/-- The first error is at a place up to which all is well, and is right there. -/
theorem offends_of_fault {refusal : Refusal} (foretold : fault? terminals = some refusal) :
    Viable (terminals.take refusal.place) ∧ Offends terminals refusal.place refusal.error := by
  obtain ⟨front, behind, goals, names, back, rfl, reached, settles, place⟩ :=
    exists_reaches foretold
  have settling : Settles names behind.head? goals (.refuse back refusal.error) :=
    settles ▸ settles_settle goals
  rw [place]
  rcases settling.exists_refuses with ⟨passed, goal, others, rfl, refuses⟩ | ⟨met, trailing⟩
  · exact offends_of_refuses reached settles rfl refuses
  · obtain ⟨terminal, isNext, rfl, error⟩ := trailing
    obtain ⟨rest, rfl⟩ := List.head?_eq_some_iff.1 isNext
    have isClass : IsClass front := by simpa using reached.isClass met
    rw [error] at settles ⊢
    have notViable := not_viable_of_refuse reached settles
    refine ⟨?_, by simp, ?_, ?_⟩
    · simpa using reached.viable
    · simpa using isClass
    · simpa [List.take_length_add_append] using notViable

theorem place_le_of_fault {refusal : Refusal} (foretold : fault? terminals = some refusal) :
    refusal.place ≤ terminals.length := by
  obtain ⟨front, behind, _, _, back, rfl, _, _, place⟩ := exists_reaches foretold
  rw [place, List.length_append]
  omega

end Offences

end Prediction

/-! ## Where tokens are -/

/-- Whether the first character of a token is at a position. -/
def Token.StandsAt (source : String) (token : Token) (position : Position) : Prop :=
  ∃ before piece after, source.toList = before ++ piece ++ after ∧ piece ≠ [] ∧
    Token.Spells piece token.kind ∧ token = Token.spanning token.kind before piece ∧
    position = Position.after before

/-- Whether the token with a given number is at a position, or the end if there is none. -/
def TokenStream.StandsAt (source : String) (stream : TokenStream) (place : Nat)
    (position : Position) : Prop :=
  match stream.tokens[place]? with
  | some token => token.StandsAt source position
  | none => position = Position.after source.toList

section Positions

variable {source : String} {stream : TokenStream} {position : Position}

theorem Token.standsAt_of_spells {kind : Token.Kind} {before piece after : List Char}
    (shape : source.toList = before ++ piece ++ after) (nonempty : piece ≠ [])
    (spells : Token.Spells piece kind)
    (located : (Token.spanning kind before piece).span.position? source = some position) :
    (Token.spanning kind before piece).StandsAt source position := by
  have start : source.toList = before ++ (piece ++ after) := by rw [shape, List.append_assoc]
  rw [Span.position?_of_toList start rfl] at located
  exact ⟨before, piece, after, shape, nonempty, spells, rfl, (Option.some.inj located).symm⟩

/-- The position of a token is that of its first character, and that of the end is behind all. -/
theorem TokenStream.standsAt_of_ofText (lexed : TokenStream.ofText source = .ok stream)
    {place : Nat} (located : (stream.spanAt place).position? source = some position) :
    stream.StandsAt source place position := by
  unfold TokenStream.spanAt at located
  unfold TokenStream.StandsAt
  cases found : stream.tokens[place]? with
  | some token =>
      rw [found] at located
      rw [(TokenStream.start_of_ofText lexed).2] at found
      have each : ∀ token ∈ stream.remaining,
          token.span.position? source = some position → token.StandsAt source position :=
        TokenStream.forall_of_ofText Token.standsAt_of_spells lexed
      exact each token (List.mem_of_getElem? found) located
  | none =>
      rw [found] at located
      have ending : stream.ending = source.utf8ByteSize :=
        congrArg TokenStream.ending (TokenStream.eq_ofTokens_of_ofText lexed)
      have start : stream.endSpan.lo = Token.byteLength source.toList := by
        rw [Token.byteLength_eq, String.ofList_toList, ← ending]
        rfl
      rw [Span.position?_of_toList (List.append_nil _).symm start] at located
      exact (Option.some.inj located).symm

end Positions

/-- Errors are reported at the earliest token that is at fault, at its first character. -/
theorem compile_error_earliest {σ : Type} [LabelSource σ] {labels : σ} {unit source : String}
    {stream : TokenStream} {error : Error} (fits : source.utf8ByteSize ≤ Span.maxOffset)
    (lexed : TokenStream.ofText source = .ok stream)
    (failed : (compile labels unit source).1 = .error (.error error)) :
    ∃ (terminals : List Terminal) (place : Nat), stream.terminals? source = some terminals ∧
      place ≤ terminals.length ∧ stream.StandsAt source place error.position ∧
      Prediction.Viable (terminals.take place) ∧
      Prediction.Offends terminals place error.kind := by
  obtain ⟨terminals, shown⟩ := TokenStream.exists_terminals_of_ofText fits lexed
  have plenty : (compile labels unit source).1 ≠ .error (.broken .labelsExhausted) := by
    rw [failed]
    nofun
  have comesTrue := Prediction.comesTrue_of_plenty fits lexed shown plenty
  cases foretold : Prediction.fault? terminals with
  | none =>
      rw [foretold, failed] at comesTrue
      obtain ⟨compiled, success⟩ := comesTrue
      cases success
  | some refusal =>
      rw [foretold, failed] at comesTrue
      obtain ⟨position, located, outcome⟩ := comesTrue
      cases outcome
      obtain ⟨viable, offends⟩ := Prediction.offends_of_fault foretold
      exact ⟨terminals, refusal.place, shown, Prediction.place_le_of_fault foretold,
        TokenStream.standsAt_of_ofText lexed located, viable, offends⟩

/-- An operator that nothing follows. -/
theorem compile_error_earliest_of_operator :
    ∃ (source : String) (stream : TokenStream) (error : Error) (terminals : List Terminal)
      (place : Nat), source.utf8ByteSize ≤ Span.maxOffset ∧
      TokenStream.ofText source = .ok stream ∧
      (compile (⟨7⟩ : LabelCounter) "A" source).1 = .error (.error error) ∧
      error = ⟨"A", ⟨1, 35⟩, .grammatical (.unexpectedInExpression (.punctuation .semicolon))⟩ ∧
      stream.terminals? source = some terminals ∧ place ≤ terminals.length ∧
      stream.StandsAt source place error.position ∧ Prediction.Viable (terminals.take place) ∧
      Prediction.Offends terminals place error.kind := by
  let source := "class A\x7bfunction int f()\x7breturn 1+;\x7d\x7d"
  have fits : source.utf8ByteSize ≤ Span.maxOffset := by decide +kernel
  have readable : (TokenStream.ofText source).toOption.isSome := by decide +kernel
  have failed : (compile (⟨7⟩ : LabelCounter) "A" source).1 = .error (.error
      ⟨"A", ⟨1, 35⟩, .grammatical (.unexpectedInExpression (.punctuation .semicolon))⟩) := by
    decide +kernel
  cases lexed : TokenStream.ofText source with
  | error failure =>
      rw [lexed] at readable
      cases readable
  | ok stream =>
      obtain ⟨terminals, place, shown, inside, stands, viable, offends⟩ :=
        compile_error_earliest fits lexed failed
      exact ⟨source, stream, _, terminals, place, fits, lexed, failed, rfl, shown, inside, stands,
        viable, offends⟩

end JackCompiler
