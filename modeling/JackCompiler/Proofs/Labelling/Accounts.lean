import JackCompiler.Proofs.Labelling.Accounting
import JackCompiler.Proofs.Labelling.Relabelling
import JackCompiler.Proofs.Prediction.Earliest

/-!
# Labels of compilations

How many labels a compilation draws is read off its outcome: none if the text has no tokens, and
else two for each choice and each loop that is opened among the tokens, up to the token that the
error is about if there is one. A counter that has fewer left is used up.
-/

namespace JackCompiler

open Grammar

namespace Pass

open Accounting

variable {start : TokenStream} {part : Pass Tally Code}

/-! ## Expressions -/

/-- No labels are drawn for the token of an operator. -/
theorem pays_nextOperator? : Pays start (Rests start) nextOperator? fun operator? state =>
    Rests start state ∧
      ∀ operator ∈ operator?, state.nextKind? = some (.punctuation operator.mark) := by
  intro context before rests
  unfold nextOperator?
  rw [run_bind_of_done run_peek?]
  cases next : before.stream.peek? with
  | none => exact ⟨rests, nofun⟩
  | some token =>
      refine ⟨rests, fun operator isOperator => ?_⟩
      have kind := BinaryOperator.ofKind?_eq_some_iff.1 isOperator
      unfold PassState.nextKind? TokenStream.nextKind?
      rw [next, Option.map_some, kind]

/-- Expressions keep the books even if their terms do. -/
theorem keeps_expressionOf (term : Keeps start part) : Keeps start (expressionOf part) := by
  refine term.bind fun first => keeps_iterate (fun code => ?_) first
  refine pays_nextOperator?.bind ?_
  rintro (_ | operator)
  · exact pays_pure fun _ looked => looked.1
  · have read : Pays start (fun state => Rests start state ∧
        state.nextKind? = some (.punctuation operator.mark)) advance fun _ => Rests start :=
      pays_advanceOver rfl
    refine Pays.bind (read.strengthen ?_) fun _ => ?_
    · exact fun state looked => ⟨looked.1, looked.2 operator rfl⟩
    · exact term.bind fun _ => keeps_pure _

/-- Lists of expressions keep the books even if expressions do. -/
theorem keeps_expressionList (expression : Keeps start part) :
    Keeps start (expressionList part) := by
  refine (pays_nextSatisfies _).bind ?_
  rintro (_ | _)
  · refine (keeps_separated ?_ _).strengthen fun _ looked => looked.1
    rintro ⟨code, count⟩
    exact expression.bind fun _ => (keeps_sum _ _ _).bind fun _ => keeps_pure _
  · exact pays_pure fun _ looked => looked.1

/-- Arguments keep the books even if expressions do. -/
theorem keeps_arguments (expression : Keeps start part) : Keeps start (arguments part) :=
  (keeps_expectMark _).bind fun _ => (keeps_expressionList expression).bind fun list =>
    keeps_closed _ list

/-- Calls keep the books even if expressions do. -/
theorem keeps_subroutineCall (expression : Keeps start part) :
    Keeps start (subroutineCall part) := by
  refine keeps_name.bind fun owner => (keeps_take rfl).bind ?_
  rintro (_ | _)
  · refine (keeps_arguments expression).bind ?_
    rintro ⟨code, count⟩
    refine (keeps_sum _ _ _).bind fun _ => ?_
    exact Keeps.bind pays_className fun _ => keeps_pure _
  · refine keeps_name.bind fun subroutine => Keeps.bind (pays_lookup? owner) ?_
    rintro (_ | receiver)
    · exact (keeps_arguments expression).bind fun _ => keeps_pure _
    · refine (keeps_arguments expression).bind ?_
      rintro ⟨code, count⟩
      exact (keeps_sum _ _ _).bind fun _ => keeps_pure _

/-- An element of an array keeps the books even, once its bracket is known to come. -/
theorem pays_arrayElement (expression : Keeps start part) (array : Variable) :
    Pays start
      (fun state => Rests start state ∧ state.nextKind? = some (.punctuation .leftBracket))
      (arrayElement part array) fun _ => Rests start := by
  refine (pays_advanceOver rfl).bind fun _ => ?_
  exact Keeps.bind expression fun index => keeps_closed _ _

/-- A term that starts with a name, which was just read. -/
theorem pays_nameTerm {token : Token} (expression : Keeps start part)
    (isName : token.kind = .identifier) :
    Pays start (Took start Quiet token) (nameTerm part token) fun _ => Rests start := by
  have quiet : token.kind.draws = false := by rw [isName]; rfl
  refine pays_peek?.bind fun next => ?_
  have resolved : Pays start (fun state => Took start Quiet token state ∧
      state.stream.peek? = next) (resolve token) fun _ state =>
      Took start Quiet token state ∧ state.stream.peek? = next :=
    pays_resolve fun _ looked => looked.1
  have called : Pays start (fun state => Took start Quiet token state ∧
      state.stream.peek? = next) (unread >>= fun _ => subroutineCall part) fun _ => Rests start :=
    (pays_unread.strengthen fun _ looked => looked.1).bind fun _ => keeps_subroutineCall expression
  split
  · next isNext =>
      refine resolved.bind fun array => ?_
      refine (pays_arrayElement expression array).strengthen ?_
      rintro state ⟨took, rfl⟩
      exact ⟨took.rests quiet, isNext⟩
  · exact called
  · exact called
  · exact resolved.bind fun place => pays_pure fun _ looked => looked.1.rests quiet

/-- A string constant is read already, and its code changes nothing. -/
theorem pays_stringTerm {given : PassState Tally → Prop} (token : Token) :
    Pays start given (stringTerm token) fun _ => given := by
  refine pays_context fun context => (pays_required _).bind fun text => ?_
  cases Code.stringConstant? text with
  | some code => exact pays_pure fun _ holds => holds
  | none => exact pays_breakOff _

/-- Terms of any depth keep the books even, by induction on the depth. -/
theorem keeps_term (depth : Nat) : Keeps start (term depth) := by
  induction depth with
  | zero => exact pays_breakOff _
  | succ depth inductionHypothesis =>
      have inner := keeps_expressionOf inductionHypothesis
      refine pays_advance_of_rests.bind fun token => ?_
      have rests (quiet : token.kind.draws = false) :
          ∀ state, Took start Quiet token state → Rests start state :=
        fun _ took => took.rests quiet
      cases isConstant : KeywordConstant.ofKind? token.kind with
      | some constant =>
          have kind := KeywordConstant.ofKind?_eq_some_iff.1 isConstant
          exact pays_pure (rests (by rw [kind]; cases constant <;> rfl))
      | none =>
          cases isOperator : UnaryOperator.ofKind? token.kind with
          | some operator =>
              have kind := UnaryOperator.ofKind?_eq_some_iff.1 isOperator
              refine Pays.strengthen ?_ (rests (by rw [kind]; rfl))
              exact inductionHypothesis.bind fun _ => keeps_pure _
          | none =>
              cases kind : token.kind with
              | integer value => exact pays_pure (rests (by rw [kind]; rfl))
              | string =>
                  exact (pays_stringTerm token).strengthen (rests (by rw [kind]; rfl))
              | identifier => exact pays_nameTerm inner kind
              | punctuation mark =>
                  cases mark with
                  | leftParen =>
                      refine Pays.strengthen ?_ (rests (by rw [kind]; rfl))
                      exact inner.bind fun code => keeps_closed _ code
                  | _ => exact pays_reject nofun
              | keyword word => exact pays_reject nofun

/-- Expressions keep the books even. -/
theorem keeps_expression : Keeps start expression :=
  pays_context fun context => keeps_expressionOf (keeps_term context.bound)

/-! ## Statements -/

/-- A condition is read right behind the keyword, whose labels are drawn. -/
theorem pays_condition : Pays start (Owes start 0) condition fun _ => Rests start := by
  refine (pays_expectMark _).bind fun _ => ?_
  exact Keeps.bind keeps_expression fun code => keeps_closed _ _

/-- Blocks keep the books even if statements do. -/
theorem keeps_blockOf (statements : Keeps start part) : Keeps start (blockOf part) :=
  (keeps_expectMark _).bind fun _ => statements.bind fun code => keeps_closed _ code

/-- Assignments to elements keep the books even. -/
theorem keeps_elementAssignment (array : Variable) : Keeps start (elementAssignment array) := by
  refine keeps_expression.bind fun index => (keeps_expectMark _).bind fun _ => ?_
  exact (keeps_expectMark _).bind fun _ => keeps_expression.bind fun _ => keeps_pure _

/-- Assignments to variables keep the books even. -/
theorem keeps_variableAssignment (target : Variable) :
    Keeps start (variableAssignment target) :=
  (keeps_expectMark _).bind fun _ => keeps_expression.bind fun _ => keeps_pure _

/-- Assignments keep the books even. -/
theorem keeps_letStatement : Keeps start letStatement := by
  have named : Pays start (Rests start) (expect .identifier) fun token state =>
      Took start (fun _ => True) token state ∧ token.kind = .identifier :=
    (pays_expect _).strengthen fun _ rests => rests.owes
  refine named.bind fun token => pays_assuming fun isName => ?_
  have quiet : token.kind.draws = false := by rw [isName]; rfl
  refine (pays_resolve fun _ took => took).bind fun target => ?_
  refine Pays.strengthen ?_ fun _ took => took.rests quiet
  refine (keeps_take rfl).bind ?_
  rintro (_ | _)
  · exact (keeps_variableAssignment target).bind fun code => keeps_closed _ code
  · exact (keeps_elementAssignment target).bind fun code => keeps_closed _ code

/-- Both labels of a statement are drawn before anything else is read. -/
theorem pays_bothLabels {next : Label → Label → Pass Tally Code}
    (behind : ∀ first second, Pays start (Owes start 0) (next first second) fun _ => Rests start) :
    Pays start (Owes start 2) (draw >>= fun first => draw >>= next first) fun _ => Rests start :=
  (pays_draw 1).bind fun first => (pays_draw 0).bind (behind first)

/-- A choice pays for its two labels at once, before it reads on. -/
theorem pays_ifStatement (block : Keeps start part) :
    Pays start (Owes start 2) (ifStatement part) fun _ => Rests start := by
  refine pays_bothLabels fun otherwise done => pays_condition.bind fun test => ?_
  refine Keeps.bind block fun body => (keeps_take rfl).bind ?_
  rintro (_ | _)
  · exact keeps_pure _
  · exact block.bind fun alternative => keeps_pure _

/-- A loop pays for its two labels at once, before it reads on. -/
theorem pays_whileStatement (block : Keeps start part) :
    Pays start (Owes start 2) (whileStatement part) fun _ => Rests start := by
  refine pays_bothLabels fun top bottom => pays_condition.bind fun test => ?_
  exact Keeps.bind block fun body => keeps_pure _

/-- Calls as statements keep the books even. -/
theorem keeps_doStatement : Keeps start doStatement :=
  (keeps_subroutineCall keeps_expression).bind fun _ => keeps_closed _ _

/-- Returns keep the books even. -/
theorem keeps_returnStatement : Keeps start returnStatement := by
  refine (keeps_take rfl).bind ?_
  rintro (_ | _)
  · exact keeps_expression.bind fun code => keeps_closed _ _
  · exact keeps_pure _

/-- The keyword of a statement is read first, and unread if it is none. -/
theorem keeps_statementsOf (block : Keeps start part) : Keeps start (statementsOf part) := by
  refine keeps_iterate (fun code => ?_) _
  refine pays_advance_of_rests.bind fun token => ?_
  have quiet {statement : Pass Tally Code} (keeps : Keeps start statement)
      (draws : token.kind.draws = false) :
      Pays start (Took start Quiet token) (statement >>= fun more => pure (Sum.inl (code ++ more)))
        fun (_ : Code ⊕ Code) => Rests start :=
    (keeps.bind fun more => keeps_pure _).strengthen fun _ took => took.rests draws
  have owing {statement : Pass Tally Code}
      (pays : Pays start (Owes start 2) statement fun _ => Rests start)
      (draws : token.kind.draws = true) :
      Pays start (Took start Quiet token) (statement >>= fun more => pure (Sum.inl (code ++ more)))
        fun (_ : Code ⊕ Code) => Rests start :=
    (pays.bind fun more => keeps_pure _).strengthen fun _ took => took.owes draws
  split
  · next kind => exact quiet keeps_letStatement (by rw [kind]; rfl)
  · next kind => exact owing (pays_ifStatement block) (by rw [kind]; rfl)
  · next kind => exact owing (pays_whileStatement block) (by rw [kind]; rfl)
  · next kind => exact quiet keeps_doStatement (by rw [kind]; rfl)
  · next kind => exact quiet keeps_returnStatement (by rw [kind]; rfl)
  · exact pays_unread.bind fun _ => keeps_pure _

/-- Statements of any depth keep the books even, by induction on the depth. -/
theorem keeps_statementsWithin (depth : Nat) : Keeps start (statementsWithin depth) := by
  induction depth with
  | zero => exact pays_breakOff _
  | succ depth inductionHypothesis => exact keeps_statementsOf (keeps_blockOf inductionHypothesis)

/-- Statements keep the books even. -/
theorem keeps_statements : Keeps start statements :=
  pays_context fun context => keeps_statementsWithin context.bound

/-! ## Classes -/

/-- Variables of a class keep the books even. -/
theorem keeps_classVariables : Keeps start classVariables := by
  refine (keeps_expectAny (by decide)).bind fun keyword => keeps_typeName.bind fun type => ?_
  refine (keeps_separated (fun _ => ?_) _).bind fun _ => keeps_expectMark _
  exact keeps_name.bind fun name => keeps_defineInClass name type _

/-- Parameters keep the books even. -/
theorem keeps_parameters : Keeps start parameters := by
  refine (keeps_expectMark _).bind fun _ => (keeps_take rfl).bind ?_
  rintro (_ | _)
  · refine (keeps_separated (fun _ => ?_) _).bind fun _ => keeps_expectMark _
    refine keeps_typeName.bind fun type => keeps_name.bind fun name => ?_
    exact keeps_defineInSubroutine _ name type _
  · exact keeps_pure _

/-- Local variables of one type keep the books even. -/
theorem keeps_localVariables : Keeps start localVariables := by
  have keyword : Keeps start (expect (.keyword .var)) :=
    (pays_expectQuiet rfl).strengthen fun _ rests => rests.owes
  refine keyword.bind fun _ => keeps_typeName.bind fun type => ?_
  refine (keeps_separated (fun count => ?_) _).bind fun count => keeps_closed _ count
  refine keeps_name.bind fun name => (keeps_defineInSubroutine _ name type _).bind fun _ => ?_
  split
  · exact pays_breakOff _
  · exact keeps_pure _

/-- All local variables keep the books even. -/
theorem keeps_allLocalVariables : Keeps start allLocalVariables :=
  keeps_whileNext _ (fun count => keeps_localVariables.bind fun more => keeps_sum _ count more) _

/-- The body of a subroutine keeps the books even. -/
theorem keeps_subroutineBody : Keeps start subroutineBody := by
  refine (keeps_expectMark _).bind fun _ => keeps_allLocalVariables.bind fun locals => ?_
  exact keeps_statements.bind fun body => keeps_closed _ _

/-- Subroutines keep the books even. -/
theorem keeps_subroutine : Keeps start subroutine := by
  refine (keeps_expectAny (by decide)).bind fun keyword => keeps_openSubroutine.bind fun _ => ?_
  refine (keeps_expectAny (by decide)).bind fun _ => keeps_name.bind fun ownName => ?_
  refine Keeps.bind pays_className fun owner => ?_
  have rest : Keeps start (parameters >>= fun _ => subroutineBody >>= fun body => Pass.state >>=
      fun current => pure (Code.ofList [.function (owner ++ "." ++ ownName) body.1] ++
        prologue keyword.kind current.scope.fieldCount ++ body.2)) :=
    keeps_parameters.bind fun _ => keeps_subroutineBody.bind fun body _ _ rests => rests
  split
  · exact (keeps_defineInSubroutine _ _ _ _).bind fun _ => rest
  · exact rest

/-- Once a class is recognised all its tokens are read, and all labels that they ask for drawn. -/
theorem pays_classDeclaration : Pays start (Owes start 0) classDeclaration fun _ state =>
    state.labels.count = labelsFor start.tokens := by
  refine (pays_expectQuiet rfl).bind fun _ => Pays.bind keeps_name fun name => ?_
  refine Pays.bind (keeps_setClassName name) fun _ => Pays.bind (keeps_expectMark _) fun _ => ?_
  refine Pays.bind (keeps_whileNext _ (fun _ => keeps_classVariables) _) fun _ => ?_
  refine Pays.bind (keeps_whileNext _ (fun code => ?_) _) fun code => ?_
  · exact keeps_subroutine.bind fun more => keeps_pure _
  refine Pays.bind (keeps_expectMark _) fun _ => pays_peek?.bind ?_
  rintro (_ | token)
  · apply pays_pure
    rintro state ⟨rests, next⟩
    have ended : state.stream.remaining = [] := List.head?_eq_none_iff.1 next
    rw [← rests.owes.tokens, TokenStream.tokens, ended, List.append_nil, labelsFor_reverse]
    exact rests.owes.labels
  · exact fun _ _ looked => looked.1.owes.square looked.2 (by simp)

end Pass

/-- How a compilation can end, and the labels that it has drawn by then. -/
inductive Accounted (source : String) : Except Failure CompiledUnit → Nat → Prop
  /-- None are drawn if the source has no tokens. -/
  | unread {unit : String} {position : Position} {failure : Located LexicalError}
      (lexed : TokenStream.ofText source = .error failure) :
      Accounted source (.error (.error ⟨unit, position, .lexical failure.value⟩)) 0
  | compiled {stream : TokenStream} {compiled : CompiledUnit}
      (lexed : TokenStream.ofText source = .ok stream) :
      Accounted source (.ok compiled) (labelsFor stream.tokens)
  /-- The error is at a token, or at the end if there is a token too few. -/
  | failed {stream : TokenStream} {error : Error} {place : Nat}
      (lexed : TokenStream.ofText source = .ok stream) (inside : place ≤ stream.tokens.length)
      (stands : stream.StandsAt source place error.position)
      (atEnd : place = stream.tokens.length ↔ error.kind = .grammatical .unexpectedEnd) :
      Accounted source (.error (.error error)) (labelsFor (stream.tokens.take place))

section Outcomes

variable {source unit : String} {stream : TokenStream}

/-- On a tally nothing but the source decides how many labels are drawn. -/
theorem accounted_of_tally (unit : String) (fits : source.utf8ByteSize ≤ Span.maxOffset) :
    Accounted source (compile (⟨0⟩ : Tally) unit source).1 (labelsWanted source) := by
  have unbroken (breakdown : Breakdown) :
      (compile (⟨0⟩ : Tally) unit source).1 ≠ .error (.broken breakdown) := fun broken =>
    plenty_of_tally ⟨0⟩ unit source (breakdown_of_compile fits broken ▸ broken)
  rw [labelsWanted, ← labels_of_unit _ unit]
  cases lexed : TokenStream.ofText source with
  | error failure =>
      obtain ⟨position, located⟩ := TokenStream.exists_position_of_ofText lexed
      have turned : compile (⟨0⟩ : Tally) unit source =
          (.error (.error ⟨unit, position, .lexical failure.value⟩), ⟨0⟩) := by
        simp [compile, lexed, Failure.ofCause, Error.locate?, Span.locate, located]
      rw [turned]
      exact .unread lexed
  | ok stream =>
      have begins : Accounting.Owes stream 0 ⟨stream, ⟨0⟩, .empty, ""⟩ :=
        ⟨rfl, rfl, by rw [(TokenStream.start_of_ofText lexed).1]; rfl⟩
      have ran := Pass.pays_classDeclaration ⟨source, stream.size + 1⟩ _ begins
      rw [Prediction.compile_of_lexed _ unit lexed] at unbroken ⊢
      generalize Pass.classDeclaration.run ⟨source, stream.size + 1⟩
        (⟨stream, ⟨0⟩, .empty, ""⟩ : PassState Tally) = result at ran unbroken ⊢
      cases result with
      | done code state =>
          dsimp only at ran ⊢
          rw [ran]
          exact .compiled lexed
      | halted reason state =>
          cases reason with
          | broken breakdown => exact absurd rfl (unbroken breakdown)
          | rejected cause =>
              obtain ⟨place, inside, span, atEnd, drawn⟩ := ran
              dsimp only at unbroken ⊢
              rw [drawn]
              rcases Prediction.ofCause_cases unit source cause with
                ⟨position, located, same⟩ | outside
              · rw [Failure.ofHalt, same]
                rw [span] at located
                exact .failed lexed inside (TokenStream.standsAt_of_ofText lexed located) atEnd
              · exact absurd (congrArg Except.error outside) (unbroken _)

/-- Code does not matter. -/
theorem Accounted.transfer {outcome outcome' : Except Failure CompiledUnit} {number : Nat}
    (accounted : Accounted source outcome number)
    (same : outcome'.map CompiledUnit.className = outcome.map CompiledUnit.className) :
    Accounted source outcome' number := by
  cases accounted with
  | compiled lexed =>
      cases outcome' with
      | ok compiled => exact .compiled lexed
      | error failure => cases same
  | unread lexed =>
      cases outcome' with
      | ok compiled => cases same
      | error failure =>
          cases same
          exact .unread lexed
  | failed lexed inside stands atEnd =>
      cases outcome' with
      | ok compiled => cases same
      | error failure =>
          cases same
          exact .failed lexed inside stands atEnd

end Outcomes

/-- A compilation whose source of labels does not run out draws two labels for each choice and each
loop that the tokens open, up to the token that its error is about, and none if there are no tokens.
If a counter has as many left, the compilation ends in such a way and moves it on by their number;
else it breaks off for want of labels and leaves the counter at its end. -/
theorem compile_accounts_for_labels (counter : LabelCounter) (unit : String) {source : String}
    (fits : source.utf8ByteSize ≤ Span.maxOffset) :
    Accounted source (compile (⟨0⟩ : Tally) unit source).1 (labelsWanted source) ∧
    (counter.next.toNat + labelsWanted source ≤ 4294967295 →
      Accounted source (compile counter unit source).1 (labelsWanted source) ∧
      (compile counter unit source).2.next.toNat = counter.next.toNat + labelsWanted source) ∧
    (4294967295 < counter.next.toNat + labelsWanted source →
      compile counter unit source = (.error (.broken .labelsExhausted), ⟨4294967295⟩)) := by
  have unlimited := accounted_of_tally unit fits
  refine ⟨unlimited, ?_, ?_⟩
  · intro enough
    obtain ⟨after, drawn⟩ := LabelCounter.exists_drawn? enough
    obtain ⟨left, _, same⟩ := compile_of_plenty unit drawn
    rw [left]
    exact ⟨unlimited.transfer same, LabelCounter.next_of_drawn? drawn⟩
  · intro short
    rcases compile_cases counter unit source with ⟨drawn, _⟩ | ⟨_, exhausted, empty, _⟩
    · have reached := LabelCounter.next_of_drawn? drawn
      have bound := (compile counter unit source).2.next.toNat_lt
      omega
    · have ended := LabelCounter.draw?_eq_none_iff.1 empty
      exact Prod.ext exhausted (congrArg LabelCounter.mk ended)

/-- A choice without a condition in a choice in a loop: three pairs of labels are drawn and none is
placed. What stands behind the error asks for no labels. Five labels are not enough. -/
theorem compile_accounts_for_labels_of_choice :
    ∃ source : String, source.utf8ByteSize ≤ Span.maxOffset ∧ labelsWanted source = 6 ∧
      Accounted source (compile (⟨4294967289⟩ : LabelCounter) "A" source).1 6 ∧
      (compile (⟨4294967289⟩ : LabelCounter) "A" source).1 = .error (.error ⟨"A", ⟨1, 43⟩,
        .grammatical (.unexpected (.punctuation .leftParen) (.punctuation .semicolon))⟩) ∧
      (compile (⟨4294967289⟩ : LabelCounter) "A" source).2.next.toNat = 4294967295 ∧
      compile (⟨4294967290⟩ : LabelCounter) "A" source =
        (.error (.broken .labelsExhausted), ⟨4294967295⟩) := by
  let source := "class A\x7bfunction int f()\x7bwhile(1)\x7bif(2)\x7bif;while(3)\x7b"
  have fits : source.utf8ByteSize ≤ Span.maxOffset := by decide +kernel
  have wanted : labelsWanted source = 6 := by decide +kernel
  have failed : (compile (⟨4294967289⟩ : LabelCounter) "A" source).1 = .error (.error ⟨"A", ⟨1, 43⟩,
      .grammatical (.unexpected (.punctuation .leftParen) (.punctuation .semicolon))⟩) := by
    decide +kernel
  obtain ⟨_, enough, _⟩ := compile_accounts_for_labels ⟨4294967289⟩ "A" fits
  obtain ⟨_, _, short⟩ := compile_accounts_for_labels ⟨4294967290⟩ "A" fits
  rw [wanted] at enough short
  obtain ⟨accounted, moved⟩ := enough (by decide)
  exact ⟨source, fits, wanted, accounted, failed, moved, short (by decide)⟩

end JackCompiler
