import JackCompiler.Machine.Code
import JackCompiler.Token.Stream

/-!
# Terminals

The alphabet of the grammar. A terminal is a token with its text in place of its span, so that a
sequence of terminals says all that a sequence of tokens says, without the source it was read from.
`TokenStream.Reads` is how a stream moves over the tokens that show given terminals.
-/

namespace JackCompiler

namespace Grammar

/-- A terminal of the grammar. -/
inductive Terminal
  | keyword (word : Keyword)
  | mark (sign : Punctuation)
  | name (text : String)
  | string (contents : String)
  | integer (value : UInt16)
  deriving DecidableEq

namespace Terminal

/-- The kind of the tokens that show a terminal. -/
def kind : Terminal → Token.Kind
  | keyword word => .keyword word
  | mark sign => .punctuation sign
  | name _ => .identifier
  | string _ => .string
  | integer value => .integer value

/-- A terminal is decided by its kind unless it carries text. -/
theorem eq_mark_of_kind {terminal : Terminal} {sign : Punctuation}
    (kind : terminal.kind = .punctuation sign) : terminal = .mark sign := by
  cases terminal <;> cases kind
  rfl

theorem eq_keyword_of_kind {terminal : Terminal} {word : Keyword}
    (kind : terminal.kind = .keyword word) : terminal = .keyword word := by
  cases terminal <;> cases kind
  rfl

theorem exists_name_of_kind {terminal : Terminal} (kind : terminal.kind = .identifier) :
    ∃ text, terminal = .name text := by
  cases terminal <;> cases kind
  exact ⟨_, rfl⟩

end Terminal

end Grammar

open Grammar

/-- The terminal that a token shows. A token whose span does not cut out the text that its kind
promises shows none; no such token is ever read from a text. -/
def Token.terminal? (token : Token) (source : String) : Option Terminal :=
  match token.kind with
  | .keyword word => if token.text? source = some word.text then some (.keyword word) else none
  | .punctuation sign => some (.mark sign)
  | .identifier => (token.text? source).map .name
  | .string =>
      match token.contents? source with
      | some contents =>
          if contents.utf8ByteSize ≤ Library.maxStringLength then some (.string contents) else none
      | none => none
  | .integer value => some (.integer value)

namespace Token

variable {token : Token} {source : String}

/-- A token has the kind of the terminal that it shows. -/
theorem kind_of_terminal? {terminal : Terminal} (shown : token.terminal? source = some terminal) :
    token.kind = terminal.kind := by
  unfold terminal? at shown
  split at shown
  · next word kind =>
      split at shown <;> cases shown
      exact kind
  · next sign kind =>
      cases shown
      exact kind
  · next kind =>
      obtain ⟨text, _, rfl⟩ := Option.map_eq_some_iff.1 shown
      exact kind
  · next kind =>
      split at shown
      · split at shown <;> cases shown
        exact kind
      · cases shown
  · next value kind =>
      cases shown
      exact kind

/-- The source text of a token that shows a keyword is that keyword. -/
theorem text?_of_keyword {word : Keyword}
    (shown : token.terminal? source = some (.keyword word)) :
    token.text? source = some word.text := by
  have kind : token.kind = .keyword word := kind_of_terminal? shown
  simp only [terminal?, kind] at shown
  split at shown
  · next text => exact text
  · cases shown

/-- The source text of a token that shows a name is that name. -/
theorem text?_of_name {text : String} (shown : token.terminal? source = some (.name text)) :
    token.text? source = some text := by
  have kind : token.kind = .identifier := kind_of_terminal? shown
  simp only [terminal?, kind] at shown
  obtain ⟨found, isText, same⟩ := Option.map_eq_some_iff.1 shown
  cases same
  exact isText

/-- A token that shows a string constant has its contents between the quotes, and they are short
enough for the runtime library. -/
theorem contents?_of_string {contents : String}
    (shown : token.terminal? source = some (.string contents)) :
    token.contents? source = some contents ∧ contents.utf8ByteSize ≤ Library.maxStringLength := by
  have kind : token.kind = .string := kind_of_terminal? shown
  simp only [terminal?, kind] at shown
  split at shown
  · next found isContents =>
      split at shown
      · next short =>
          cases shown
          exact ⟨isContents, short⟩
      · cases shown
  · cases shown

end Token

namespace TokenStream

variable {source : String} {before middle after : TokenStream}

/-- Every token that is left shows a terminal. -/
def Legible (source : String) (stream : TokenStream) : Prop :=
  ∀ token ∈ stream.remaining, (token.terminal? source).isSome

/-- The terminals of all tokens, wherever the place is, if every token shows one. -/
def terminals? (source : String) (stream : TokenStream) : Option (List Terminal) :=
  stream.tokens.mapM fun token => token.terminal? source

/-- The kind of the token that comes next. -/
def nextKind? (stream : TokenStream) : Option Token.Kind := stream.peek?.map Token.kind

/-- Moving a stream forward over tokens that show the given terminals. -/
inductive Reads (source : String) : TokenStream → List Terminal → TokenStream → Prop
  | nil (stream : TokenStream) : Reads source stream [] stream
  | cons {stream middle after : TokenStream} {token : Token} {terminal : Terminal}
      {terminals : List Terminal} (next : stream.next? = some (token, middle))
      (shown : token.terminal? source = some terminal)
      (others : Reads source middle terminals after) :
      Reads source stream (terminal :: terminals) after

/-- A stream with a next token has that token in front of what is left. -/
theorem next?_eq_some_iff {token : Token} :
    before.next? = some (token, after) ↔
      before.remaining = token :: after.remaining ∧
        after.consumed = token :: before.consumed ∧ after.ending = before.ending := by
  unfold next?
  split
  · next shape => simp [shape]
  · next first rest shape =>
      obtain ⟨consumed, remaining, ending⟩ := after
      simp only [Option.some.injEq, Prod.mk.injEq, mk.injEq, shape, List.cons.injEq]
      constructor
      · rintro ⟨rfl, rfl, rfl, rfl⟩
        exact ⟨⟨rfl, rfl⟩, rfl, rfl⟩
      · rintro ⟨⟨rfl, rfl⟩, rfl, rfl⟩
        exact ⟨rfl, rfl, rfl, rfl⟩

namespace Reads

/-- Moving over one terminal reads one token. -/
theorem single_iff {terminal : Terminal} :
    Reads source before [terminal] after ↔
      ∃ token, before.next? = some (token, after) ∧ token.terminal? source = some terminal := by
  constructor
  · rintro (_ | ⟨next, shown, ⟨⟩⟩)
    exact ⟨_, next, shown⟩
  · rintro ⟨token, next, shown⟩
    exact .cons next shown (.nil after)

/-- Moves follow one another. -/
theorem trans {first second : List Terminal} (one : Reads source before first middle)
    (two : Reads source middle second after) : Reads source before (first ++ second) after := by
  induction one with
  | nil => exact two
  | cons next shown _ inductionHypothesis => exact .cons next shown (inductionHypothesis two)

/-- A move over a joined sequence stops in between. -/
theorem split {first second : List Terminal}
    (whole : Reads source before (first ++ second) after) :
    ∃ middle, Reads source before first middle ∧ Reads source middle second after := by
  induction first generalizing before with
  | nil => exact ⟨before, .nil before, whole⟩
  | cons terminal first inductionHypothesis =>
      obtain _ | ⟨next, shown, others⟩ := whole
      obtain ⟨middle, left, right⟩ := inductionHypothesis others
      exact ⟨middle, .cons next shown left, right⟩

/-- A move over one terminal and then others. -/
theorem head {terminal : Terminal} {terminals : List Terminal}
    (whole : Reads source before (terminal :: terminals) after) :
    ∃ middle, Reads source before [terminal] middle ∧ Reads source middle terminals after := by
  rw [← List.singleton_append] at whole
  exact whole.split

theorem eq_of_nil (move : Reads source before [] after) : after = before := by
  cases move
  rfl

theorem nextKind? {terminal : Terminal} {terminals : List Terminal}
    (move : Reads source before (terminal :: terminals) after) :
    before.nextKind? = some terminal.kind := by
  obtain _ | ⟨next, shown, _⟩ := move
  have shape := (next?_eq_some_iff.1 next).1
  simp [TokenStream.nextKind?, peek?, shape, Token.kind_of_terminal? shown]

/-- A move takes one token for every terminal. -/
theorem length_remaining {terminals : List Terminal}
    (move : Reads source before terminals after) :
    before.remaining.length = terminals.length + after.remaining.length := by
  induction move with
  | nil => simp
  | cons next _ _ inductionHypothesis =>
      have shape := (next?_eq_some_iff.1 next).1
      rw [shape, List.length_cons, List.length_cons, inductionHypothesis]
      omega

/-- The ends of a move decide its terminals. -/
theorem terminals_unique {first second : List Terminal} (one : Reads source before first after)
    (two : Reads source before second after) : first = second := by
  have lengths : first.length = second.length := by
    have ofFirst := one.length_remaining
    have ofSecond := two.length_remaining
    omega
  induction one generalizing second with
  | nil => exact (List.length_eq_zero_iff.1 lengths.symm).symm
  | cons next shown _ inductionHypothesis =>
      obtain _ | ⟨again, shown', others⟩ := two
      · cases lengths
      · rw [next] at again
        cases again
        rw [shown, Option.some.injEq] at shown'
        rw [shown', inductionHypothesis others (Nat.succ_inj.1 lengths)]

/-- A terminal that is moved over is shown by a token that was left before. -/
theorem exists_token {terminal : Terminal} {terminals : List Terminal}
    (move : Reads source before terminals after) (member : terminal ∈ terminals) :
    ∃ token ∈ before.remaining, token.terminal? source = some terminal := by
  induction move with
  | nil => cases member
  | cons next shown _ inductionHypothesis =>
      rw [(next?_eq_some_iff.1 next).1]
      rcases List.mem_cons.1 member with rfl | member
      · exact ⟨_, List.mem_cons_self, shown⟩
      · obtain ⟨token, left, shown⟩ := inductionHypothesis member
        exact ⟨token, List.mem_cons_of_mem _ left, shown⟩

/-- What is left after a move is legible if all of it was before. -/
theorem legible {terminals : List Terminal} (move : Reads source before terminals after)
    (all : before.Legible source) : after.Legible source := by
  induction move with
  | nil => exact all
  | cons next _ _ inductionHypothesis =>
      apply inductionHypothesis
      intro token member
      apply all
      rw [(next?_eq_some_iff.1 next).1]
      exact List.mem_cons_of_mem _ member

/-- A move to the end of a stream is over the terminals of all that was left. -/
theorem mapM_of_end {terminals : List Terminal} (move : Reads source before terminals after)
    (ended : after.remaining = []) :
    (before.remaining.mapM fun token => token.terminal? source) = some terminals := by
  induction move with
  | nil => simp [ended]
  | cons next shown _ inductionHypothesis =>
      rw [(next?_eq_some_iff.1 next).1, List.mapM_cons, shown, inductionHypothesis ended]
      rfl

/-- Conversely a stream can be moved to its end over the terminals of all that is left. -/
theorem exists_end {terminals : List Terminal}
    (shown : (before.remaining.mapM fun token => token.terminal? source) = some terminals) :
    ∃ after, Reads source before terminals after ∧ after.remaining = [] := by
  obtain ⟨consumed, remaining, ending⟩ := before
  induction remaining generalizing consumed terminals with
  | nil =>
      cases shown
      exact ⟨_, .nil _, rfl⟩
  | cons token remaining inductionHypothesis =>
      rw [List.mapM_cons] at shown
      obtain ⟨terminal, isTerminal, others⟩ := Option.bind_eq_some_iff.1 shown
      obtain ⟨terminals, areTerminals, same⟩ := Option.bind_eq_some_iff.1 others
      cases same
      obtain ⟨after, move, ended⟩ := inductionHypothesis (token :: consumed) areTerminals
      exact ⟨after, .cons rfl isTerminal move, ended⟩

end Reads

end TokenStream

end JackCompiler
