import JackCompiler.Proofs.Prediction.Recognisers

/-!
# Declarations, classes and what was foretold

Declarations add to what is known of names while their goals are pursued, so here the names behind
a part are others than before. Local variables are counted besides; the count is never larger than
that of the table, which has room for it, so to add it up never fails.
-/

namespace JackCompiler

open Grammar

namespace Pass

open Prediction

variable {forecast : Forecast} {names : Names} {place locals : Nat} {terminals : List Terminal}
  {goals : List Goal} {before : PassState Tally}

/-- Goals are left, and of names the number of local variables is known. -/
def FacesWith (forecast : Forecast) (locals : Nat) (goals : List Goal) (state : PassState Tally) :
    Prop :=
  ∃ names, names.count .local = locals ∧ Faces forecast goals names state

/-! ## Variables -/

/-- Of two ways to go on with a goal one is chosen, whatever is known of names. -/
theorem FacesWith.choice {goal : Goal} {sign : Punctuation} (inside instead : List Goal)
    (reads : ∀ names, goal.react names (some (.mark sign)) = .read inside names)
    (amounts : ∀ names place terminals, terminals.head? ≠ some (.mark sign) →
      refusal? (goal :: goals) names place terminals =
        refusal? (instead ++ goals) names place terminals)
    (faces : FacesWith forecast locals (goal :: goals) before) :
    Fulfils forecast (take (.punctuation sign)) before fun answer after =>
      FacesWith forecast locals ((if answer then inside else instead) ++ goals) after := by
  obtain ⟨names, counted, faces⟩ := faces
  exact (fulfils_choiceOfMark inside instead (reads names) (amounts names) faces).mono
    fun answer after faces => ⟨names, counted, faces⟩

/-- A mark that is the first goal is met with the same locals counted. -/
theorem FacesWith.mark {sign : Punctuation}
    (faces : FacesWith forecast locals (Goal.mark sign :: goals) before) :
    Fulfils forecast (expectMark sign) before fun _ after => FacesWith forecast locals goals after := by
  obtain ⟨names, counted, faces⟩ := faces
  exact (fulfils_mark faces).mono fun _ after faces => ⟨names, counted, faces⟩

/-- A variable that is defined counts if it is local. -/
theorem FacesWith.variable {role : Role} {type : String}
    (faces : FacesWith forecast locals (.variable role type :: goals) before) :
    Fulfils forecast (do define (← name) type role) before fun _ after =>
      FacesWith forecast (locals + if role = .local then 1 else 0) goals after := by
  obtain ⟨names, rfl, faces⟩ := faces
  refine (fulfils_variable faces).mono ?_
  rintro _ after ⟨_, text, faces⟩
  exact ⟨_, names.count_declare text type role .local, faces⟩

/-- Behind a variable there is a comma with another one, or the semicolon. -/
theorem FacesWith.nextVariable {role : Role} {type : String}
    (faces : FacesWith forecast locals (.moreVariables role type :: goals) before) :
    Fulfils forecast (take (.punctuation .comma)) before fun answer after =>
      if answer then
        FacesWith forecast locals (.variable role type :: .moreVariables role type :: goals) after
      else FacesWith forecast locals (Goal.mark .semicolon :: goals) after := by
  refine (faces.choice [.variable role type, .moreVariables role type] [Goal.mark .semicolon]
    (fun _ => rfl) fun _ _ _ => refusal?_moreVariables).mono ?_
  rintro (_ | _) after faces
  · exact faces
  · exact faces

/-- Variables of one type that are not local, up to the semicolon. -/
theorem fulfils_variables {role : Role} {type : String} (other : role ≠ .local)
    (faces : FacesWith forecast locals
      (.variable role type :: .moreVariables role type :: goals) before) :
    Fulfils forecast (separated (fun () => do define (← name) type role) ()) before fun _ after =>
      FacesWith forecast locals (Goal.mark .semicolon :: goals) after := by
  refine fulfils_separated (fun _ state => FacesWith forecast locals
    (.variable role type :: .moreVariables role type :: goals) state)
    (fun _ state faces => FacesWith.variable faces) (fun _ state faces => ?_) faces
  rw [if_neg other, Nat.add_zero] at faces
  exact faces.nextVariable

/-- A declaration of class variables, from its first word on. -/
theorem fulfils_classVariables
    (opens : before.nextKind?.any Token.Kind.opensClassVariables = true)
    (faces : FacesWith forecast locals (.classBody :: goals) before) :
    Fulfils forecast classVariables before fun _ after =>
      FacesWith forecast locals (.classBody :: goals) after := by
  obtain ⟨names, counted, place, terminals, here, foretold⟩ := faces
  have reading : Fulfils forecast (expectAny Token.Kind.classVariableKinds) before
      fun token after => ∃ storage : ClassStorage,
        token.kind = .keyword (storageWord storage) ∧
          Faces forecast (.variableList (.ofClass storage) :: .classBody :: goals) names after := by
    rw [here.nextKind?] at opens
    refine fulfils_expectAny here (fun absent => ?_) ?_
    · obtain ⟨kind, next, isWord⟩ := (Option.any_eq_true _ _).1 opens
      obtain ⟨terminal, first, rfl⟩ := Option.map_eq_some_iff.1 next
      exact absurd (List.contains_iff_mem.1 isWord) (absent terminal first)
    · rintro terminal others token after rfl member read
      obtain ⟨storage, rfl⟩ := mem_classVariableKinds_iff.1 member
      refine ⟨storage, Token.kind_of_terminal? read.shown, _, others, read.here, ?_⟩
      rw [← foretold]
      cases storage <;> rfl
  refine reading.bind ?_
  rintro token after ⟨storage, kind, place, terminals, here, foretold⟩
  rw [kind]
  rw [refusal?_cons, Goal.react] at foretold
  refine (fulfils_typeName here foretold).bind fun type after faces => ?_
  have other : Role.ofClass storage ≠ .local := nofun
  have listing := fulfils_variables other ⟨names, counted, faces⟩
  have storage_of_word : (if Token.Kind.keyword (storageWord storage) = .keyword .static then
      ClassStorage.static else .field) = storage := storage_of_word storage
  rw [storage_of_word]
  exact Fulfils.bind listing fun _ _ faces => faces.mark

/-! ## Subroutines -/

/-- Parameters meet their goals, each one declared. -/
theorem fulfils_parameters
    (faces : FacesWith forecast locals (Goal.mark .leftParen :: .parameters :: goals) before) :
    Fulfils forecast parameters before fun _ after => FacesWith forecast locals goals after := by
  have each (state : PassState Tally)
      (faces : FacesWith forecast locals (.parameter :: .moreParameters :: goals) state) :
      Fulfils forecast (do
        let type ← typeName
        defineParameter (← name) type) state fun _ after =>
          FacesWith forecast locals (.moreParameters :: goals) after := by
    obtain ⟨names, counted, place, terminals, here, foretold⟩ := faces
    rw [refusal?_cons, Goal.react] at foretold
    refine (fulfils_typeName here foretold).bind fun type after faces => ?_
    exact FacesWith.variable ⟨names, counted, faces⟩
  refine faces.mark.bind fun _ after faces => ?_
  refine (faces.choice [] [.parameter, .moreParameters]
    (fun _ => rfl) fun _ _ _ => refusal?_parameters).bind ?_
  rintro (_ | _) after faces
  · refine Fulfils.bind (fulfils_separated (fun _ state => FacesWith forecast locals
      (.parameter :: .moreParameters :: goals) state) (fun _ => each) (fun _ state faces => ?_)
      faces) fun _ _ faces => FacesWith.mark faces
    refine (faces.choice [.parameter, .moreParameters] [Goal.mark .rightParen]
      (fun _ => rfl) fun _ _ _ => refusal?_moreParameters).mono ?_
    rintro (_ | _) after faces
    · exact faces
    · exact faces
  · exact fulfils_pure faces

/-- A local variable, which is counted. -/
def localVariable (type : String) (count : UInt16) : Pass Tally UInt16 := do
  defineInSubroutine .localVariables (← name) type .local
  if count = 65535 then breakOff .countOverflow else pure (count + 1)

/-- A local variable meets its goal and is counted. -/
theorem fulfils_localVariable {type : String} {count : UInt16}
    (faces : FacesWith forecast (locals + count.toNat) (.variable .local type :: goals) before) :
    Fulfils forecast (localVariable type count) before fun count after =>
      FacesWith forecast (locals + count.toNat) goals after := by
  show Fulfils forecast (name >>= fun text => define text type .local >>= fun _ =>
    if count = 65535 then breakOff .countOverflow else pure (count + 1)) before _
  rw [← bind_assoc]
  refine faces.variable.bind fun _ after faces => ?_
  split
  · exact fulfils_breakOff _
  · next below =>
      have bound := count.toNat_lt
      have small : count.toNat ≠ 65535 := fun same => below (UInt16.toNat_inj.1 same)
      have more : (count + 1).toNat = count.toNat + 1 := by
        rw [UInt16.toNat_add]
        simp
        omega
      refine fulfils_pure ?_
      rw [more, ← Nat.add_assoc]
      exact faces

/-- The local variables of one declaration are counted from zero. -/
theorem fulfils_countedVariables {type : String}
    (faces : FacesWith forecast locals
      (.variable .local type :: .moreVariables .local type :: goals) before) :
    Fulfils forecast (separated (localVariable type) 0) before fun count after =>
      FacesWith forecast (locals + count.toNat) (Goal.mark .semicolon :: goals) after :=
  fulfils_separated (fun count state => FacesWith forecast (locals + count.toNat)
    (.variable .local type :: .moreVariables .local type :: goals) state)
    (fun _ _ faces => fulfils_localVariable faces) (fun _ _ faces => faces.nextVariable) faces

/-- Local variables of one type meet their goals and are counted. -/
theorem fulfils_localVariables
    (opens : before.nextKind?.any (· == .keyword .var) = true)
    (faces : FacesWith forecast locals (.body :: goals) before) :
    Fulfils forecast localVariables before fun count after =>
      FacesWith forecast (locals + count.toNat) (.body :: goals) after := by
  obtain ⟨names, counted, place, terminals, here, foretold⟩ := faces
  have opened : Fulfils forecast (expect (.keyword .var)) before fun _ after =>
      Faces forecast (.variableList .local :: .body :: goals) names after := by
    rw [here.nextKind?] at opens
    obtain ⟨kind, next, isWord⟩ := (Option.any_eq_true _ _).1 opens
    obtain ⟨terminal, first, rfl⟩ := Option.map_eq_some_iff.1 next
    obtain rfl := Terminal.eq_keyword_of_kind (eq_of_beq isWord)
    refine fulfils_expect here (fun absent => absurd rfl (absent _ first)) ?_
    rintro _ others token after rfl _ read
    cases first
    exact ⟨_, others, read.here, foretold⟩
  refine opened.bind ?_
  rintro token after ⟨place, terminals, here, foretold⟩
  rw [refusal?_cons, Goal.react] at foretold
  refine (fulfils_typeName here foretold).bind fun type after faces => ?_
  refine Fulfils.bind (fulfils_countedVariables ⟨names, counted, faces⟩) fun count after faces => ?_
  exact faces.mark.bind fun _ _ faces => fulfils_pure faces

/-- No table holds more local variables than can be counted. -/
theorem FacesWith.small (faces : FacesWith forecast locals goals before) : locals ≤ maxCount := by
  obtain ⟨names, rfl, place, terminals, here, _⟩ := faces
  have bound := here.carries.ofSubroutine.count_le .local
  rw [Declaration.count_reverse] at bound
  exact bound

/-- All local variables meet their goals. -/
theorem fulfils_allLocalVariables (faces : FacesWith forecast 0 (.body :: goals) before) :
    Fulfils forecast allLocalVariables before fun _ after =>
      ∃ names, Faces forecast (.statements :: goals) names after := by
  refine fulfils_whileNext (fun count state => FacesWith forecast count.toNat (.body :: goals) state)
    (fun count state faces opens => ?_) (fun count state faces closes => ?_) faces
  · refine (fulfils_localVariables opens faces).bind fun more after faces => ?_
    have small := faces.small
    obtain ⟨names, counted, place, terminals, here, foretold⟩ := faces
    refine fulfils_sum here (fun large => absurd small (Nat.not_le.2 large)) fun total added => ?_
    rw [added]
    exact ⟨names, counted, place, terminals, here, foretold⟩
  · obtain ⟨names, counted, place, terminals, here, foretold⟩ := faces
    refine ⟨names, place, terminals, here, ?_⟩
    rw [← foretold]
    refine (refusal?_body fun first => ?_).symm
    rw [here.nextKind?, nextKind?, first] at closes
    cases closes

/-- The body of a subroutine meets its goals. -/
theorem fulfils_subroutineBody
    (faces : FacesWith forecast 0 (Goal.mark .leftBrace :: .body :: goals) before) :
    Fulfils forecast subroutineBody before fun _ after => ∃ names, Faces forecast goals names after := by
  refine faces.mark.bind fun _ after faces => ?_
  refine (fulfils_allLocalVariables faces).bind ?_
  rintro count after ⟨names, faces⟩
  refine (pursues_statements faces).bind fun body after faces => ?_
  exact (fulfils_mark faces).bind fun _ after faces => fulfils_pure ⟨names, faces⟩

/-- The object that a method is called on is defined first. -/
theorem fulfils_defineReceiver {kind : SubroutineKind}
    (meets : Meets forecast (.read [] (names.enterSubroutine kind)) goals names.openSubroutine
      before) :
    Fulfils forecast (defineReceiver (.keyword kind.word) names.className) before fun _ after =>
      FacesWith forecast 0 goals after := by
  obtain ⟨place, terminal, terminals, here, foretold⟩ := meets
  have enters {state : PassState Tally}
      (there : At forecast (names.enterSubroutine kind) (place + 1) terminals state) :
      FacesWith forecast 0 goals state := by
    refine ⟨_, ?_, place, terminals, there, foretold⟩
    cases kind <;> rfl
  cases kind with
  | method =>
      refine fulfils_defineInSubroutine here (fun large => absurd large ?_) fun _ _ there => ?_
      · simp [Names.openSubroutine, maxCount]
      · exact enters there
  | constructor | function => exact fulfils_pure (enters here)

/-- A return type meets its goal. -/
theorem fulfils_returnType (faces : Faces forecast (.returnType :: goals) names before) :
    Fulfils forecast (expectAny Token.Kind.returnTypes) before fun _ after =>
      Faces forecast goals names after := by
  obtain ⟨place, terminals, here, foretold⟩ := faces
  rw [refusal?_cons] at foretold
  refine fulfils_expectAny here (fun absent => ?_) ?_
  · rw [← foretold]
    rcases terminals with _ | ⟨terminal, terminals⟩
    · rfl
    · have apart := absent terminal rfl
      rw [mem_returnTypes_iff] at apart
      rw [List.head?_cons, Goal.react]
      · rfl
      · exact fun next => apart ⟨none, Option.some.inj next⟩
      · exact fun next => apart ⟨some .int, Option.some.inj next⟩
      · exact fun next => apart ⟨some .char, Option.some.inj next⟩
      · exact fun next => apart ⟨some .boolean, Option.some.inj next⟩
      · exact fun text next => apart ⟨some (.named text), Option.some.inj next⟩
  · rintro terminal others token after rfl member read
    obtain ⟨result, rfl⟩ := mem_returnTypes_iff.1 member
    refine ⟨_, others, read.here, ?_⟩
    rw [← foretold]
    rcases result with _ | (_ | _ | _ | _) <;> rfl

/-- The name of a subroutine meets its goal, and the scope of the subroutine is entered. -/
theorem fulfils_subroutineName {kind : SubroutineKind}
    (faces : Faces forecast (.subroutineName kind :: goals) names before) :
    Fulfils forecast name before fun _ after =>
      Meets forecast (.read [] (names.enterSubroutine kind)) goals names after := by
  obtain ⟨place, terminals, here, foretold⟩ := faces
  rw [refusal?_cons, Goal.react] at foretold
  exact fulfils_name here foretold

/-- The first word of a subroutine, behind which nothing is left of the one before. -/
theorem fulfils_subroutineKind
    (opens : before.nextKind?.any Token.Kind.opensSubroutine = true)
    (faces : Faces forecast (.subroutines :: goals) names before) :
    Fulfils forecast (expectAny Token.Kind.subroutineKinds) before fun token after =>
      ∃ kind : SubroutineKind, token.kind = .keyword kind.word ∧
        Fulfils forecast openSubroutine after fun _ after =>
          Faces forecast (Goal.subroutine kind ++ goals) names.openSubroutine after := by
  obtain ⟨place, terminals, here, foretold⟩ := faces
  rw [here.nextKind?] at opens
  refine fulfils_expectAny here (fun absent => ?_) ?_
  · obtain ⟨kind, next, isWord⟩ := (Option.any_eq_true _ _).1 opens
    obtain ⟨terminal, first, rfl⟩ := Option.map_eq_some_iff.1 next
    exact absurd (List.contains_iff_mem.1 isWord) (absent terminal first)
  · rintro terminal others token after rfl member read
    obtain ⟨kind, rfl⟩ := mem_subroutineKinds_iff.1 member
    refine ⟨kind, Token.kind_of_terminal? read.shown, ?_⟩
    have opened : openSubroutine.run forecast.context after = .done () _ := rfl
    obtain ⟨stream, carries⟩ := openSubroutine_of_done read.here.carries opened
    refine ⟨_, others, read.here.retabled stream carries, ?_⟩
    rw [← foretold]
    cases kind <;> rfl

/-- A subroutine meets its goals. -/
theorem fulfils_subroutine
    (opens : before.nextKind?.any Token.Kind.opensSubroutine = true)
    (faces : Faces forecast (.subroutines :: goals) names before) :
    Fulfils forecast subroutine before fun _ after =>
      ∃ names, Faces forecast (.subroutines :: goals) names after := by
  rw [subroutine_eq]
  refine (fulfils_subroutineKind opens faces).bind ?_
  rintro keyword _ ⟨kind, isWord, opened⟩
  refine opened.bind fun _ _ faces => ?_
  refine (fulfils_returnType faces).bind fun _ _ faces => ?_
  refine (fulfils_subroutineName faces).bind fun ownName after meets => ?_
  have owner : after.environment.className = names.className := by
    obtain ⟨_, _, _, here, _⟩ := meets
    rw [here.environment]
    rfl
  refine fulfils_bind_of_done run_className ?_
  rw [owner, isWord]
  refine (fulfils_defineReceiver meets).bind fun _ _ faces => ?_
  refine (fulfils_parameters faces).bind fun _ _ faces => ?_
  refine (fulfils_subroutineBody faces).bind fun body after faces => ?_
  exact fulfils_bind_of_done (run_state _ _) (fulfils_pure faces)

/-! ## Classes -/

/-- All variables of a class meet their goals. -/
theorem fulfils_allClassVariables (faces : FacesWith forecast locals (.classBody :: goals) before) :
    Fulfils forecast (whileNext Token.Kind.opensClassVariables (fun () => classVariables) ()) before
      fun _ after => ∃ names, Faces forecast (.subroutines :: goals) names after := by
  refine fulfils_whileNext (fun _ state => FacesWith forecast locals (.classBody :: goals) state)
    (fun _ state faces opens => fulfils_classVariables opens faces)
    (fun _ state faces closes => ?_) faces
  obtain ⟨names, counted, place, terminals, here, foretold⟩ := faces
  refine ⟨names, place, terminals, here, ?_⟩
  rw [← foretold]
  refine (refusal?_classBody fun storage first => ?_).symm
  rw [here.nextKind?, nextKind?, first] at closes
  cases storage <;> cases closes

/-- All subroutines of a class meet their goals. -/
theorem fulfils_allSubroutines (faces : Faces forecast (.subroutines :: goals) names before) :
    Fulfils forecast (whileNext Token.Kind.opensSubroutine
      (fun code => do pure (code ++ (← subroutine))) .empty) before
      fun _ after => ∃ names, Faces forecast (Goal.mark .rightBrace :: goals) names after := by
  refine fulfils_whileNext (fun _ state => ∃ names, Faces forecast (.subroutines :: goals) names state)
    ?_ ?_ ⟨names, faces⟩
  · rintro code state ⟨names, faces⟩ opens
    exact (fulfils_subroutine opens faces).bind fun _ _ faces => fulfils_pure faces
  · rintro code state ⟨names, place, terminals, here, foretold⟩ closes
    refine ⟨names, place, terminals, here, ?_⟩
    rw [← foretold]
    refine (refusal?_subroutines fun kind first => ?_).symm
    rw [here.nextKind?, nextKind?, first] at closes
    cases kind <;> cases closes

/-- Behind the class the end is next. -/
theorem fulfils_ending {code : Code} (faces : Faces forecast [] names before) :
    Fulfils forecast (do
      match ← peek? with
      | some token => reject token.span (.grammatical (.trailingInput token.kind))
      | none => pure code) before fun _ after =>
        forecast.refusal? = none ∧ after.labels.count ≤ forecast.draws := by
  obtain ⟨place, terminals, here, foretold⟩ := faces
  have draws := here.draws
  refine fulfils_bind_of_done run_peek? ?_
  cases terminals with
  | nil =>
      rw [TokenStream.peek?, here.remaining_eq_nil]
      exact fulfils_pure ⟨foretold.symm, by omega⟩
  | cons terminal terminals =>
      obtain ⟨after, move⟩ := here.exists_reads
      obtain ⟨token, read, shown⟩ := TokenStream.Reads.single_iff.1 move.stream
      have span := here.span_of_next read
      rw [TokenStream.peek?, (TokenStream.next?_eq_some_iff.1 read).1]
      refine fulfils_reject (by omega) span ?_
      rw [Token.kind_of_terminal? shown]
      exact foretold

/-- The name of the class is known once it is read. -/
theorem fulfils_setClassName {text : String}
    (meets : Meets forecast (.read [] { names with className := text }) goals names before) :
    Fulfils forecast (setClassName text) before fun _ after =>
      Faces forecast goals { names with className := text } after := by
  obtain ⟨place, terminal, terminals, here, foretold⟩ := meets
  refine fulfils_bind_of_done (run_state _ _) ?_
  refine ⟨place, terminals, here.retabled rfl ?_, foretold⟩
  exact ⟨rfl, rfl, here.carries.ofClass, here.carries.ofSubroutine⟩

/-- A class meets its goals, and draws no more labels than its terminals ask for. -/
theorem fulfils_classDeclaration (here : At forecast noNames 0 terminals before)
    (foretold : refusal? classGoals noNames 0 terminals = forecast.refusal?) :
    Fulfils forecast classDeclaration before fun _ after =>
      forecast.refusal? = none ∧ after.labels.count ≤ forecast.draws := by
  refine (fulfils_kindAt here foretold).bind ?_
  rintro _ _ ⟨place, terminals, here, foretold⟩
  rw [refusal?_cons, Goal.react] at foretold
  refine (fulfils_name here foretold).bind fun text after meets => ?_
  refine (fulfils_setClassName meets).bind fun _ _ faces => ?_
  refine (fulfils_mark faces).bind fun _ _ faces => ?_
  refine (fulfils_allClassVariables ⟨_, rfl, faces⟩).bind ?_
  rintro _ _ ⟨names, faces⟩
  refine (fulfils_allSubroutines faces).bind ?_
  rintro code _ ⟨names, faces⟩
  exact (fulfils_mark faces).bind fun _ _ faces => fulfils_ending faces

end Pass

end JackCompiler
