import JackCompiler.Compiler
import JackCompiler.Proofs.Comparison.Recognisers
import JackCompiler.Proofs.Comparison.Texts
import JackCompiler.Proofs.Labelling.Recognisers
import JackCompiler.Proofs.Termination.Calls
import JackCompiler.Proofs.Termination.Rounds

/-!
# The end of a pass

A pass over tokens comes to its end, whatever tokens these are. It yields code, rejects the source,
or breaks off, which it does only for want of labels or at a token with a span that no reader of the
source would give it. The bound of its loops and of its nesting, which is computed from the number
of tokens, does not matter: every larger one leads to the same end.
-/

namespace JackCompiler

/-- A token that no reader of a source would make: its text, or what it would hold as a string
constant, cannot be cut out of the source, or is too long for the runtime library. -/
inductive Token.Unreadable (source : String) (token : Token) : Breakdown → Prop
  | text (outside : token.text? source = none) : Unreadable source token .spanOutsideText
  | contents (isString : token.kind = .string) (outside : token.contents? source = none) :
      Unreadable source token .spanOutsideText
  | length {contents : String} (isString : token.kind = .string)
      (cut : token.contents? source = some contents) (long : Code.stringConstant? contents = none) :
      Unreadable source token .stringTooLong

/-- Tokens that were read from a source are not of this kind. -/
theorem Token.Unreadable.not_sound {source : String} {token : Token} {breakdown : Breakdown}
    (unreadable : token.Unreadable source breakdown) : ¬token.Sound source := by
  intro sound
  cases unreadable with
  | text outside =>
      obtain ⟨text, cut⟩ := sound.cut
      rw [cut] at outside
      cases outside
  | contents isString outside =>
      obtain ⟨contents, _, cut, _⟩ := sound.string isString
      rw [cut] at outside
      cases outside
  | length isString cut long =>
      obtain ⟨contents, _, isContents, short⟩ := sound.string isString
      rw [isContents, Option.some.injEq] at cut
      subst cut
      simp [Code.stringConstant?_eq, short] at long

/-- How a pass over tokens can end. -/
inductive PassEnd {σ : Type} [LabelSource σ] (labels : σ) (source : String) (tokens : List Token) :
    Except Halt CompiledUnit → Prop
  | compiled (unit : CompiledUnit) : PassEnd labels source tokens (.ok unit)
  | rejected (cause : Located ErrorKind) : PassEnd labels source tokens (.error (.rejected cause))
  /-- So many labels could not be drawn. -/
  | exhausted {number : Nat} (ended : LabelSource.drawn? labels number = none) :
      PassEnd labels source tokens (.error (.broken .labelsExhausted))
  | unreadable {token : Token} {breakdown : Breakdown} (member : token ∈ tokens)
      (unreadable : token.Unreadable source breakdown)
      (unread : source.utf8ByteSize ≤ Span.maxOffset → ∀ stream,
        TokenStream.ofText source = .ok stream → token ∉ stream.remaining) :
      PassEnd labels source tokens (.error (.broken breakdown))

namespace Comparison

/-- A text with any tokens, compared to itself. What cannot be read in it is tolerated. -/
def withItself (text : TokenText) : Comparison where
  left := text
  right := text
  Tolerates breakdown := breakdown = .labelsExhausted ∨
    ∃ token ∈ text.tokens, token.Unreadable text.source breakdown
  exhausted := .inl rfl
  length_eq := rfl
  kind_eq := by
    rintro token other ⟨index, found, found'⟩
    rw [found, Option.some.injEq] at found'
    rw [found']
  text_eq := by
    rintro token other ⟨index, found, found'⟩ _
    rw [found, Option.some.injEq] at found'
    subst found'
    exact ⟨rfl, fun none => .inr ⟨token, List.mem_of_getElem? found, .text none⟩⟩
  contents_eq := by
    rintro token other ⟨index, found, found'⟩ isString
    rw [found, Option.some.injEq] at found'
    subst found'
    have member := List.mem_of_getElem? found
    exact ⟨rfl, fun none => .inr ⟨token, member, .contents isString none⟩,
      fun contents cut long => .inr ⟨token, member, .length isString cut long⟩⟩

end Comparison

section Ends

variable {σ : Type} [LabelSource σ] (labels : σ) (source : String) (tokens : List Token)
  (ending : Nat)

/-- Where a pass over tokens starts. -/
def startOver : PassState σ := ⟨.ofTokens tokens ending, labels, .empty, ""⟩

/-- Labels run out only if they cannot be drawn. -/
theorem exists_drawn?_eq_none {context : PassContext} {after : PassState σ}
    (broken : Pass.classDeclaration.run context (startOver labels tokens ending) =
      .halted (.broken .labelsExhausted) after) :
    ∃ number, LabelSource.drawn? labels number = none := by
  have abreast : Abreast labels (startOver (⟨0⟩ : Tally) tokens ending)
      (startOver labels tokens ending) := ⟨rfl, rfl, rfl, rfl⟩
  have agrees := Pass.follows_classDeclaration.agrees context abreast
  rw [broken] at agrees
  generalize Pass.classDeclaration.run context (startOver (⟨0⟩ : Tally) tokens ending) = result
    at agrees
  cases agrees with
  | halted other => exact absurd rfl other
  | exhausted reached empty => exact ⟨_, LabelSource.drawn?_succ_eq_none reached empty⟩

variable {labels source tokens ending}

/-- A reason to stop that a text shares with itself. -/
theorem passEnd_of_halts {reason reason' : Halt}
    (alike : (Comparison.withItself ⟨source, tokens, ending⟩).Halts reason reason')
    (ended : reason = .broken .labelsExhausted →
      ∃ number, LabelSource.drawn? labels number = none) :
    PassEnd labels source tokens (.error reason) := by
  cases alike with
  | atToken => exact .rejected _
  | atEnd => exact .rejected _
  | broken tolerated =>
      rcases tolerated with rfl | ⟨token, member, unreadable⟩
      · obtain ⟨number, ended⟩ := ended rfl
        exact .exhausted ended
      · refine .unreadable member unreadable fun fits stream read inside => ?_
        exact unreadable.not_sound (TokenStream.sound_of_ofText fits read token inside)

variable (labels source tokens ending)

/-- What a pass over tokens ends with is code, an error, or one of the two ways to break off. -/
theorem passEnd_of_compileTokens :
    PassEnd labels source tokens
      (compileTokens labels source (.ofTokens tokens ending)).1 := by
  let comparison := Comparison.withItself ⟨source, tokens, ending⟩
  have level : comparison.Level (startOver labels tokens ending)
      (startOver labels tokens ending) := ⟨⟨rfl, rfl⟩, ⟨rfl, rfl⟩, rfl, rfl, rfl, rfl⟩
  have outcome : comparison.Outcome (fun code code' _ => code = code')
      (Pass.classDeclaration.run ⟨source, tokens.length + 1⟩ (startOver labels tokens ending))
      (Pass.classDeclaration.run ⟨source, tokens.length + 1⟩ (startOver labels tokens ending)) :=
    Comparison.concur_classDeclaration level
  have size : (TokenStream.ofTokens tokens ending).size = tokens.length := Nat.zero_add _
  have start : ⟨.ofTokens tokens ending, labels, .empty, ""⟩ = startOver labels tokens ending := rfl
  simp only [compileTokens, size, start]
  cases run : Pass.classDeclaration.run ⟨source, tokens.length + 1⟩
    (startOver labels tokens ending) with
  | done code after => exact .compiled _
  | halted reason after =>
      rw [run] at outcome
      cases outcome with
      | halted alike _ =>
          refine passEnd_of_halts alike ?_
          rintro rfl
          exact exists_drawn?_eq_none labels tokens ending run

/-- Every bound that exceeds the number of tokens leads to the same run. -/
theorem run_classDeclaration_of_bound {bound : Nat} (enough : tokens.length < bound) :
    Pass.classDeclaration.run ⟨source, bound⟩ (startOver labels tokens ending) =
      Pass.classDeclaration.run ⟨source, tokens.length + 1⟩ (startOver labels tokens ending) := by
  have bounds : PassContext.SameBelow (tokens.length + 1) ⟨source, bound⟩
      ⟨source, tokens.length + 1⟩ := ⟨rfl, .inr ⟨enough, Nat.le_refl _⟩⟩
  exact (Pass.alike_classDeclaration bounds (Nat.lt_succ_self _)).1

end Ends

/-- How recognisers call one another and loops go round, over whatever tokens. -/
structure Descends (σ : Type) [LabelSource σ] : Prop where
  /-- Where more levels of nesting are left than tokens, their number does not matter. -/
  nested : ∀ (context : PassContext) (depth : Nat) (state : PassState σ),
    state.left < depth → state.left < context.bound →
      (Pass.term depth).run context state =
        (Recognisers.outermost .term).run context state ∧
      (Pass.statementsWithin depth).run context state =
        (Recognisers.outermost .statements).run context state
  /-- There, the recognisers do what their bodies do when they call the recognisers themselves. -/
  recursive : ∀ (context : PassContext) (visit : Visit σ), visit.state.left < context.bound →
    (Recognisers.outermost visit.recogniser).run context visit.state =
      (Recognisers.outermost.body visit.recogniser).run context visit.state
  /-- No others do so. -/
  unique : ∀ (context : PassContext) (given : Recognisers σ),
    (∀ recogniser state, (given recogniser).run context state =
      (given.body recogniser).run context state) →
    ∀ visit : Visit σ, visit.state.left < context.bound →
      (given visit.recogniser).run context visit.state =
        (Recognisers.outermost visit.recogniser).run context visit.state
  /-- From a recogniser through calls back to itself, the number of tokens left goes down. -/
  cycles : ∀ (context : PassContext) (caller callee : Visit σ),
    Relation.TransGen (Visit.Calls context) caller callee →
      callee.recogniser = caller.recogniser → callee.state.left < caller.state.left
  /-- Calls go no deeper than the number of tokens left allows. -/
  chains : ∀ (context : PassContext) (caller : Visit σ) (callees : List (Visit σ)),
    List.IsChain (Visit.Calls context) (caller :: callees) →
      callees.length ≤ 4 * caller.state.left + caller.recogniser.rank
  /-- Between neighbours it need not go down: a term that starts a call takes its token back. -/
  level : ∀ (context : PassContext) (state : PassState σ) (token next : Token)
    (others : List Token), 0 < context.bound →
      state.stream.remaining = token :: next :: others → token.kind = .identifier →
      (next.kind = .punctuation .leftParen ∨ next.kind = .punctuation .dot) →
        List.IsChain (Visit.Calls context)
          [⟨.argumentList, state⟩, ⟨.expression, state⟩, ⟨.term, state⟩, ⟨.call, state⟩]
  loops : Loop.Stand σ
  /-- From round to round of a loop it goes down. -/
  rounds : ∀ (context : PassContext) (loop : Loop) (value next : loop.Carried)
    (before after : PassState σ),
      (loop.round value).run context before = .done (.inl next) after → after.left < before.left

/-- The recognisers and loops go down as described, over any tokens and from any state. -/
theorem descends (σ : Type) [LabelSource σ] : Descends σ where
  nested context depth state enough enough' := by
    have bounds : PassContext.SameBelow (state.left + 1) context context := .refl context
    have deep : depth = context.bound ∨
        state.left + 1 ≤ depth ∧ state.left + 1 ≤ context.bound := .inr ⟨enough, enough'⟩
    exact ⟨(Pass.alike_term bounds deep (Nat.lt_succ_self _)).1,
      (Pass.alike_statementsWithin bounds deep (Nat.lt_succ_self _)).1⟩
  recursive _ visit enough :=
    (Recognisers.alike_body_outermost visit.recogniser enough).1.symm
  unique _ _ := Recognisers.run_eq_of_solves
  cycles _ caller callee calls back := by
    rcases Visit.below_of_transGen calls with fewer | ⟨_, lower⟩
    · exact fewer
    · rw [back] at lower
      exact absurd lower (Nat.lt_irrefl _)
  chains _ _ _ := Visit.length_le_of_chain
  level _ _ _ _ _ := Visit.isChain_of_call
  loops := Loop.stand σ
  rounds _ _ _ _ _ _ := Loop.left_lt_of_round

/-- A pass over tokens ends, whatever tokens they are: with code, with an error in the source, for
want of labels, or at a token that no reader of the source would make. It never comes to its bound,
and every larger bound leads to the same run, for the recursion of the recognisers and all loops go
down. -/
structure Terminates {σ : Type} [LabelSource σ] (labels : σ) (source : String)
    (tokens : List Token) (ending : Nat) : Prop where
  ends : PassEnd labels source tokens (compileTokens labels source (.ofTokens tokens ending)).1
  withinBound : (compileTokens labels source (.ofTokens tokens ending)).1 ≠
    .error (.broken .boundExceeded)
  anyBound : ∀ bound, tokens.length < bound →
    Pass.classDeclaration.run ⟨source, bound⟩ (startOver labels tokens ending) =
      Pass.classDeclaration.run ⟨source, tokens.length + 1⟩ (startOver labels tokens ending)
  descends : Descends σ

/-- A pass over any tokens terminates: it comes to an end that does not depend on its bound, and
every call and every round on the way there leaves fewer tokens, or as many to a recogniser of lower
rank. -/
theorem compileTokens_terminates {σ : Type} [LabelSource σ] (labels : σ) (source : String)
    (tokens : List Token) (ending : Nat) : Terminates labels source tokens ending where
  ends := passEnd_of_compileTokens labels source tokens ending
  withinBound same := by
    have ends := passEnd_of_compileTokens labels source tokens ending
    rw [same] at ends
    cases ends with
    | unreadable _ unreadable _ => cases unreadable
  anyBound _ := run_classDeclaration_of_bound labels source tokens ending
  descends := descends σ

/-- A name behind the end of its source. -/
example : (compileTokens (⟨0⟩ : LabelCounter) "class" (.ofTokens
    [⟨.keyword .class, ⟨0, 5⟩⟩, ⟨.identifier, ⟨6, 1⟩⟩] 5)).1 =
      .error (.broken .spanOutsideText) := by
  decide

end JackCompiler
