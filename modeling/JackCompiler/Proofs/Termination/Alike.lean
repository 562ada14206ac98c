import JackCompiler.Proofs.Recognition.Steps

/-!
# Parts that run alike where few tokens are left

A pass with a bound is to do the same as one with a larger bound, and a recogniser is to look at the
recognisers it calls only where fewer tokens are left. `Pass.Alike` says both of two parts of a
pass: from every state with fewer tokens left than a limit they run in the same way, and at least so
many tokens are read as their value tells. The limit goes down with every token that is read, which
is what lets an induction on it go through.
-/

namespace JackCompiler

/-- Two passes over one source have bounds that make no difference where fewer tokens than a limit
are left. -/
structure PassContext.SameBelow (limit : Nat) (context context' : PassContext) : Prop where
  source : context.source = context'.source
  bound : context.bound = context'.bound ∨ limit ≤ context.bound ∧ limit ≤ context'.bound

namespace PassContext.SameBelow

variable {limit lower : Nat} {context context' : PassContext}

/-- A context has its own bound and source, whatever the limit. -/
theorem refl (context : PassContext) : SameBelow limit context context := ⟨rfl, .inl rfl⟩

/-- Contexts that agree below a limit agree below a lower one. -/
theorem weaken (same : SameBelow limit context context') (inside : lower ≤ limit) :
    SameBelow lower context context' :=
  ⟨same.source, same.bound.imp_right fun ⟨left, right⟩ =>
    ⟨Nat.le_trans inside left, Nat.le_trans inside right⟩⟩

end PassContext.SameBelow

namespace Pass

variable {σ α β : Type} {context context' : PassContext} {limit : Nat}

/-- Run from a state with fewer tokens left than a limit, two parts of a pass do the same, and their
value says how many tokens they have read at least. -/
def Alike (context context' : PassContext) (limit : Nat) (part part' : Pass σ α)
    (least : α → Nat) : Prop :=
  ∀ ⦃before : PassState σ⦄, before.left < limit →
    part.run context before = part'.run context' before ∧
      ∀ ⦃value after⦄, part.run context before = .done value after →
        after.left + least value ≤ before.left

/-- What was halted is not done. -/
theorem halted_ne_done {reason : Halt} {state after : PassState σ} {value : α} :
    PassResult.halted reason state ≠ .done value after := nofun

/-! ## Parts that follow one another -/

section Following

variable {part part' : Pass σ α} {next next' : α → Pass σ β} {least : α → Nat} {total : β → Nat}

/-- Parts that read at least so many tokens read at least fewer. -/
theorem Alike.weaken {fewer : α → Nat} (alike : Alike context context' limit part part' least)
    (order : ∀ value, fewer value ≤ least value) :
    Alike context context' limit part part' fewer := by
  intro before below
  obtain ⟨same, went⟩ := alike below
  refine ⟨same, fun value after finished => ?_⟩
  exact Nat.le_trans (Nat.add_le_add_left (order value) _) (went finished)

/-- Tokens that were read need not be counted. -/
theorem Alike.uncounted (alike : Alike context context' limit part part' least) :
    Alike context context' limit part part' fun _ => 0 :=
  alike.weaken fun _ => Nat.zero_le _

/-- What holds up to a limit holds below it. -/
theorem Alike.lower (alike : Alike context context' (limit + 1) part part' least) :
    Alike context context' limit part part' least :=
  fun _ below => alike (Nat.lt_succ_of_lt below)

/-- No state has fewer than no tokens left, so there any two parts run alike. -/
theorem alike_zero : Alike context context' 0 part part' least :=
  fun _ below => absurd below (Nat.not_lt_zero _)

/-- A value alone runs alike, and nothing is read for it. -/
theorem alike_pure {value : α} (nothing : least value = 0) :
    Alike (σ := σ) context context' limit (pure value) (pure value) least := by
  intro before _
  refine ⟨rfl, fun result after finished => ?_⟩
  obtain ⟨rfl, rfl⟩ := run_pure_eq_done_iff.1 finished
  rw [nothing]
  exact Nat.le_refl _

/-- Halting runs alike, for any reason. -/
theorem alike_halt (reason : Halt) :
    Alike (σ := σ) context context' limit (halt reason) (halt reason) least :=
  fun _ _ => ⟨rfl, fun _ _ => halted_ne_done.elim⟩

/-- Rejecting runs alike. -/
theorem alike_reject (span : Span) (kind : ErrorKind) :
    Alike (σ := σ) context context' limit (reject span kind) (reject span kind) least :=
  alike_halt _

/-- Breaking off runs alike. -/
theorem alike_breakOff (breakdown : Breakdown) :
    Alike (σ := σ) context context' limit (breakOff breakdown) (breakOff breakdown) least :=
  alike_halt _

/-- The second of two parts has the tokens left that the first leaves, and of those that both read
together it has to read those that the first did not. -/
theorem Alike.followed (lower : α → Nat)
    (one : Alike context context' limit part part' least)
    (leaves : ∀ value, limit ≤ lower value + least value)
    (two : ∀ value, Alike context context' (lower value) (next value) (next' value)
      fun result => total result - least value) :
    Alike context context' limit (part >>= next) (part' >>= next') total := by
  intro before below
  obtain ⟨same, went⟩ := one below
  rw [run_bind, run_bind, ← same]
  cases outcome : part.run context before with
  | halted reason state => exact ⟨rfl, fun _ _ => halted_ne_done.elim⟩
  | done value middle =>
      have fewer : middle.left + least value ≤ before.left := went outcome
      have inside := leaves value
      obtain ⟨same, went'⟩ := two value (show middle.left < lower value by omega)
      refine ⟨same, fun result after finished => ?_⟩
      have fewer' : after.left + (total result - least value) ≤ middle.left := went' finished
      omega

/-- Parts run alike one after another when the second ones do where the first ones leave fewer
tokens. -/
theorem Alike.bind (one : Alike context context' limit part part' least)
    (two : ∀ value, Alike context context' limit (next value) (next' value)
      fun result => total result - least value) :
    Alike context context' limit (part >>= next) (part' >>= next') total :=
  one.followed (fun _ => limit) (fun value => Nat.le_add_right limit (least value)) two

/-- Where the first of two parts reads a token, the second has one token fewer left. -/
theorem Alike.inner (one : Alike context context' (limit + 1) part part' fun _ => 1)
    (two : ∀ value, Alike context context' limit (next value) (next' value)
      fun result => total result - 1) :
    Alike context context' (limit + 1) (part >>= next) (part' >>= next') total :=
  one.followed (fun _ => limit) (fun _ => Nat.le_refl _) two

/-- What comes from the context may differ between them. -/
theorem alike_context {next next' : PassContext → Pass σ α}
    (each : Alike context context' limit (next context) (next' context') least) :
    Alike context context' limit (Pass.context >>= next) (Pass.context >>= next') least :=
  each

/-- What comes from the state is the same for both. -/
theorem alike_state {next next' : PassState σ → Pass σ α}
    (each : ∀ before : PassState σ, before.left < limit →
      (next before).run context before = (next' before).run context' before ∧
        ∀ value after, (next before).run context before = .done value after →
          after.left + least value ≤ before.left) :
    Alike context context' limit (state >>= next) (state >>= next') least :=
  fun before below => each before below

end Following

/-! ## Loops -/

section Loops

variable {step step' : α → Pass σ (α ⊕ β)} {last : β → Nat}

/-- A loop whose rounds read tokens does the same with every number of rounds that exceeds the
number of tokens left, and with the same number of rounds anyway. A round that goes on leaves one
token fewer to those that follow. -/
theorem alike_iterateFor
    (each : ∀ value, Alike context context' limit (step value) (step' value)
      (Sum.elim (fun _ => 1) last))
    {rounds rounds' : Nat} (enough : rounds = rounds' ∨ limit ≤ rounds ∧ limit ≤ rounds')
    (value : α) :
    Alike context context' limit (iterateFor step rounds value) (iterateFor step' rounds' value)
      last := by
  induction rounds generalizing rounds' limit value with
  | zero =>
      obtain rfl | ⟨none, _⟩ := enough
      · exact alike_breakOff _
      · obtain rfl := Nat.le_zero.1 none
        exact alike_zero
  | succ rounds inductionHypothesis =>
      cases limit with
      | zero => exact alike_zero
      | succ limit =>
          obtain ⟨rounds', rfl⟩ : ∃ fewer, rounds' = fewer + 1 := ⟨rounds' - 1, by omega⟩
          have fewer : rounds = rounds' ∨ limit ≤ rounds ∧ limit ≤ rounds' := by omega
          rw [iterateFor, iterateFor]
          refine (each value).followed (Sum.elim (fun _ => limit) fun _ => limit + 1) ?_ ?_
          · rintro (next | result)
            · exact Nat.le_refl _
            · exact Nat.le_add_right _ _
          · rintro (next | result)
            · have others := inductionHypothesis (fun value => (each value).lower) fewer next
              exact others.weaken fun _ => Nat.sub_le _ _
            · exact alike_pure (Nat.sub_self _)

/-- Loops run alike whose steps do and read a token whenever they go on, for the bounds agree below
the limit. -/
theorem Alike.iterate (bounds : PassContext.SameBelow limit context context')
    (each : ∀ value, Alike context context' limit (step value) (step' value)
      (Sum.elim (fun _ => 1) last)) (value : α) :
    Alike context context' limit (Pass.iterate step value) (Pass.iterate step' value) last :=
  alike_iterateFor each bounds.bound value

end Loops

/-! ## Tokens -/

section Tokens

/-- Reading a token runs alike, and one token is read. -/
theorem alike_advance :
    Alike (σ := σ) context context' limit advance advance fun _ => 1 := by
  refine alike_state fun before _ => ?_
  cases next : before.stream.next? with
  | none => exact ⟨rfl, fun _ _ => halted_ne_done.elim⟩
  | some read =>
      refine ⟨rfl, fun token after finished => ?_⟩
      cases finished
      exact Nat.le_of_eq (congrArg List.length (TokenStream.next?_eq_some_iff.1 next).1).symm

/-- What is run after a token was made unread may have that token more left. -/
theorem Alike.unread {next next' : Unit → Pass σ α} {least : α → Nat}
    (behind : ∀ value, Alike context context' (limit + 1) (next value) (next' value)
      fun result => least result + 1) :
    Alike context context' limit (Pass.unread >>= next) (Pass.unread >>= next') least := by
  intro before below
  cases stepped : before.stream.consumed with
  | nil =>
      have broken (context : PassContext) :
          Pass.unread.run context before = .halted (.broken .nothingToUnread) before := by
        unfold Pass.unread
        rw [run_bind_of_done (run_state _ _), TokenStream.pushback?, stepped]
        rfl
      rw [run_bind_of_halted (broken _), run_bind_of_halted (broken _)]
      exact ⟨rfl, fun _ _ => halted_ne_done.elim⟩
  | cons token consumed =>
      let back : PassState σ := { before with
        stream := { before.stream with
          consumed := consumed, remaining := token :: before.stream.remaining } }
      have moved (context : PassContext) : Pass.unread.run context before = .done () back := by
        unfold Pass.unread
        rw [run_bind_of_done (run_state _ _), TokenStream.pushback?, stepped]
        rfl
      have left : back.left = before.left + 1 := rfl
      rw [run_bind_of_done (moved _), run_bind_of_done (moved _)]
      obtain ⟨same, went⟩ := behind () (show back.left < limit + 1 by omega)
      refine ⟨same, fun value after finished => ?_⟩
      have fewer : after.left + (least value + 1) ≤ back.left := went finished
      omega

/-- A token that was read can be made unread, and nothing has changed. -/
theorem run_unread_of_advance {token : Token} {before middle : PassState σ}
    (read : advance.run context before = .done token middle) :
    unread.run context' middle = .done () before := by
  obtain ⟨next, others⟩ := advance_eq_done_iff.1 read
  obtain ⟨remaining, consumed, ending⟩ := TokenStream.next?_eq_some_iff.1 next
  have back : middle.stream.pushback? = some before.stream := by
    simp [TokenStream.pushback?, consumed, ending, ← remaining]
  unfold unread
  rw [run_bind_of_done (run_state _ _), back, others]
  rfl

/-- Behind a token that was read, either one token fewer is left or that token is made unread. -/
theorem Alike.token {next next' : Token → Pass σ α} {total : α → Nat}
    (behind : ∀ token,
      Alike context context' limit (next token) (next' token) (fun value => total value - 1) ∨
      ∃ rest rest', next token = Pass.unread >>= rest ∧ next' token = Pass.unread >>= rest' ∧
        Alike context context' (limit + 1) (rest ()) (rest' ()) total) :
    Alike context context' (limit + 1) (advance >>= next) (advance >>= next') total := by
  intro before below
  have advances : Alike (σ := σ) context context' (limit + 1) advance advance fun _ => 1 :=
    alike_advance
  obtain ⟨same, went⟩ := advances below
  rw [run_bind, run_bind, ← same]
  cases read : advance.run context before with
  | halted reason state => exact ⟨rfl, fun _ _ => halted_ne_done.elim⟩
  | done token middle =>
      have fewer : middle.left + 1 ≤ before.left := went read
      rcases behind token with inner | ⟨rest, rest', shape, shape', back⟩
      · obtain ⟨same, went'⟩ := inner (show middle.left < limit by omega)
        refine ⟨same, fun value after finished => ?_⟩
        have fewer' : after.left + (total value - 1) ≤ middle.left := went' finished
        omega
      · dsimp only
        rw [shape, shape', run_bind_of_done (run_unread_of_advance read),
          run_bind_of_done (run_unread_of_advance read)]
        exact back below

/-- Looking at the next token runs alike. -/
theorem alike_peek? : Alike (σ := σ) context context' limit peek? peek? fun _ => 0 :=
  alike_state fun _ _ => ⟨rfl, fun _ _ finished => by cases finished; exact Nat.le_refl _⟩

/-- Asking about the next kind runs alike. -/
theorem alike_nextSatisfies (condition : Token.Kind → Bool) :
    Alike (σ := σ) context context' limit (nextSatisfies condition) (nextSatisfies condition)
      fun _ => 0 := by
  refine alike_peek?.bind ?_
  rintro (_ | token)
  · exact alike_pure rfl
  · exact alike_pure rfl

/-- A token that is taken is read. -/
theorem alike_take (kind : Token.Kind) :
    Alike (σ := σ) context context' limit (take kind) (take kind) Bool.toNat := by
  refine (alike_nextSatisfies _).bind ?_
  rintro (_ | _)
  · exact alike_pure rfl
  · exact alike_advance.bind fun _ => alike_pure rfl

/-- Expecting a kind runs alike, and one token is read. -/
theorem alike_expect (kind : Token.Kind) :
    Alike (σ := σ) context context' limit (expect kind) (expect kind) fun _ => 1 := by
  refine alike_advance.bind fun token => ?_
  split
  · exact alike_pure rfl
  · exact alike_reject _ _

/-- Expecting a mark runs alike, and one token is read. -/
theorem alike_expectMark (mark : Punctuation) :
    Alike (σ := σ) context context' limit (expectMark mark) (expectMark mark) fun _ => 1 :=
  (alike_expect _).bind fun _ => alike_pure rfl

/-- A mark that closes what was read before. -/
theorem alike_closed {mark : Punctuation} (value : α) :
    Alike (σ := σ) context context' limit (expectMark mark >>= fun _ => pure value)
      (expectMark mark >>= fun _ => pure value) fun _ => 1 :=
  (alike_expectMark mark).bind fun _ => alike_pure rfl

/-- Expecting one of some kinds runs alike, and one token is read. -/
theorem alike_expectAny (kinds : List Token.Kind) :
    Alike (σ := σ) context context' limit (expectAny kinds) (expectAny kinds) fun _ => 1 := by
  refine alike_advance.bind fun token => ?_
  split
  · exact alike_pure rfl
  · exact alike_reject _ _

/-- Asking for a text that must be there runs alike. -/
theorem alike_required (text? : Option String) :
    Alike (σ := σ) context context' limit (required text?) (required text?) fun _ => 0 := by
  cases text? with
  | some text => exact alike_pure rfl
  | none => exact alike_breakOff _

variable (source : context.source = context'.source)

include source in
/-- The text of a token is the same where the source is. -/
theorem alike_textOf (token : Token) :
    Alike (σ := σ) context context' limit (textOf token) (textOf token) fun _ => 0 := by
  refine alike_context ?_
  rw [source]
  exact alike_required _

include source in
/-- Reading a name runs alike, and one token is read. -/
theorem alike_name : Alike (σ := σ) context context' limit name name fun _ => 1 :=
  (alike_expect _).bind fun token => alike_textOf source token

include source in
/-- Reading the name of a type runs alike, and one token is read. -/
theorem alike_typeName : Alike (σ := σ) context context' limit typeName typeName fun _ => 1 :=
  (alike_expectAny _).bind fun token => alike_textOf source token

end Tokens

/-! ## Counts, names and labels -/

section Names

variable {least : α → Nat}

/-- The error of counting is the same where the bound is another one. -/
theorem alike_tooMany (items : Countable) :
    Alike (σ := σ) context context' limit (tooMany items) (tooMany items) least :=
  alike_state fun _ _ => ⟨rfl, fun _ _ => halted_ne_done.elim⟩

/-- Sums with a limit run alike. -/
theorem alike_sum (items : Countable) (left right : UInt16) :
    Alike (σ := σ) context context' limit (sum items left right) (sum items left right)
      fun _ => 0 := by
  unfold sum
  split
  · exact alike_pure rfl
  · exact alike_tooMany items

/-- Asking for the name of the class runs alike. -/
theorem alike_className :
    Alike (σ := σ) context context' limit className className fun _ => 0 :=
  alike_state fun _ _ => ⟨rfl, fun _ _ finished => by cases finished; exact Nat.le_refl _⟩

/-- Looking a name up runs alike. -/
theorem alike_lookup? (name : String) :
    Alike (σ := σ) context context' limit (lookup? name) (lookup? name) fun _ => 0 :=
  alike_state fun _ _ => ⟨rfl, fun _ _ finished => by cases finished; exact Nat.le_refl _⟩

/-- Resolving a name runs alike where the source is the same. -/
theorem alike_resolve (source : context.source = context'.source) (token : Token) :
    Alike (σ := σ) context context' limit (resolve token) (resolve token) fun _ => 0 := by
  refine (alike_textOf source token).bind fun name => (alike_lookup? name).bind ?_
  rintro (_ | found)
  · exact alike_reject _ _
  · exact alike_pure rfl

/-- Declaring a variable of a class runs alike. -/
theorem alike_defineInClass (name type : String) (storage : ClassStorage) :
    Alike (σ := σ) context context' limit (defineInClass name type storage)
      (defineInClass name type storage) fun _ => 0 := by
  refine alike_state fun before below => ?_
  cases before.scope.ofClass.define? name type storage with
  | some defined => exact ⟨rfl, fun _ _ finished => by cases finished; exact Nat.le_refl _⟩
  | none => exact alike_tooMany _ below

/-- Declaring a variable of a subroutine runs alike. -/
theorem alike_defineInSubroutine (items : Countable) (name type : String)
    (storage : SubroutineStorage) :
    Alike (σ := σ) context context' limit (defineInSubroutine items name type storage)
      (defineInSubroutine items name type storage) fun _ => 0 := by
  refine alike_state fun before below => ?_
  cases before.scope.ofSubroutine.define? name type storage with
  | some defined => exact ⟨rfl, fun _ _ finished => by cases finished; exact Nat.le_refl _⟩
  | none => exact alike_tooMany _ below

/-- Opening a subroutine runs alike. -/
theorem alike_openSubroutine :
    Alike (σ := σ) context context' limit openSubroutine openSubroutine fun _ => 0 :=
  alike_state fun _ _ => ⟨rfl, fun _ _ finished => by cases finished; exact Nat.le_refl _⟩

/-- Naming the class runs alike. -/
theorem alike_setClassName (name : String) :
    Alike (σ := σ) context context' limit (setClassName name) (setClassName name) fun _ => 0 :=
  alike_state fun _ _ => ⟨rfl, fun _ _ finished => by cases finished; exact Nat.le_refl _⟩

/-- Drawing a label runs alike. -/
theorem alike_draw [LabelSource σ] :
    Alike (σ := σ) context context' limit draw draw fun _ => 0 := by
  refine alike_state fun before _ => ?_
  cases LabelSource.draw? before.labels with
  | some drawn => exact ⟨rfl, fun _ _ finished => by cases finished; exact Nat.le_refl _⟩
  | none => exact ⟨rfl, fun _ _ => halted_ne_done.elim⟩

end Names

/-! ## Rounds -/

section Rounds

variable {item item' : α → Pass σ α} {least : Nat}

/-- The comma behind an item is read with it. -/
theorem alike_separatedStep
    (each : ∀ value, Alike context context' limit (item value) (item' value) fun _ => least)
    (value : α) :
    Alike context context' limit (separatedStep item value) (separatedStep item' value)
      (Sum.elim (fun _ => least + 1) fun _ => least) := by
  refine (each value).bind fun value => (alike_take _).bind ?_
  rintro (_ | _)
  · exact alike_pure (by simp)
  · exact alike_pure (by simp)

/-- Separated items run alike if each item does, and as many tokens are read as for the first one.
-/
theorem alike_separated (bounds : PassContext.SameBelow limit context context')
    (each : ∀ value, Alike context context' limit (item value) (item' value) fun _ => least)
    (value : α) :
    Alike context context' limit (separated item value) (separated item' value)
      fun _ => least := by
  refine Alike.iterate bounds (fun value => ?_) value
  refine (alike_separatedStep each value).weaken ?_
  rintro (next | result)
  · exact Nat.le_add_left 1 least
  · exact Nat.le_refl least

/-- Rounds of a loop run alike if its parts do, and the last round reads nothing. -/
theorem alike_whileStep {condition : Token.Kind → Bool}
    (each : ∀ value, Alike context context' limit (item value) (item' value) fun _ => least)
    (value : α) :
    Alike context context' limit (whileStep condition item value) (whileStep condition item' value)
      (Sum.elim (fun _ => least) fun _ => 0) := by
  refine (alike_nextSatisfies condition).bind ?_
  rintro (_ | _)
  · exact alike_pure rfl
  · exact (each value).bind fun next => alike_pure (Nat.sub_self least)

/-- Loops run alike whose parts do and read a token each. -/
theorem alike_whileNext (bounds : PassContext.SameBelow limit context context')
    {condition : Token.Kind → Bool}
    (each : ∀ value, Alike context context' limit (item value) (item' value) fun _ => 1)
    (value : α) :
    Alike context context' limit (whileNext condition item value) (whileNext condition item' value)
      fun _ => 0 :=
  Alike.iterate bounds (alike_whileStep each) value

end Rounds

end Pass

end JackCompiler
