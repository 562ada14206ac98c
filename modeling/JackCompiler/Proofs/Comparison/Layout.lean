import JackCompiler.Proofs.Comparison.Recognisers
import JackCompiler.Proofs.Comparison.Texts
import JackCompiler.Proofs.Labelling.Draws
import Mathlib.Data.List.Forall2

/-!
# Layout

How a text is laid out does not matter. Two texts whose tokens agree in kinds, names and string
constants may differ in white space, comments, lines and leading zeros; they are compiled to the same
code, or turned down for the same error at the same token.
-/

namespace JackCompiler

/-- Two tokens of two sources say the same: they have the same kind, which holds the value of an
integer constant, and as names or string constants the same text. -/
structure SameToken (source other : String) (token token' : Token) : Prop where
  kind : token.kind = token'.kind
  text : token.kind = .identifier ∨ token.kind = .string →
    token.text? source = token'.text? other

theorem SameToken.refl (source : String) (token : Token) :
    SameToken source source token token :=
  ⟨rfl, fun _ => rfl⟩

/-- Two outcomes of compilations under the name of one unit say the same: both yield the same code,
or the same error at tokens with the same number, or the same error at the ends of the sources, or
the labels ran out for both. -/
inductive SameVerdict (unit source other : String) (tokens tokens' : List Token) :
    Except Failure CompiledUnit → Except Failure CompiledUnit → Prop
  | compiled (compiled : CompiledUnit) :
      SameVerdict unit source other tokens tokens' (.ok compiled) (.ok compiled)
  | atToken {index : Nat} {token token' : Token} {position position' : Position}
      (found : tokens[index]? = some token) (found' : tokens'[index]? = some token')
      (located : token.span.position? source = some position)
      (located' : token'.span.position? other = some position') (kind : ErrorKind) :
      SameVerdict unit source other tokens tokens' (.error (.error ⟨unit, position, kind⟩))
        (.error (.error ⟨unit, position', kind⟩))
  | atEnd (kind : ErrorKind) :
      SameVerdict unit source other tokens tokens'
        (.error (.error ⟨unit, Position.after source.toList, kind⟩))
        (.error (.error ⟨unit, Position.after other.toList, kind⟩))
  | exhausted :
      SameVerdict unit source other tokens tokens' (.error (.broken .labelsExhausted))
        (.error (.broken .labelsExhausted))

namespace Comparison

variable {σ : Type} [LabelSource σ]

theorem sameToken_of_pairs {left right : TokenText} {token token' : Token}
    (same : List.Forall₂ (SameToken left.source right.source) left.tokens right.tokens)
    (paired : left.Pairs right token token') :
    token ∈ left.tokens ∧ token' ∈ right.tokens ∧
      SameToken left.source right.source token token' := by
  obtain ⟨index, found, found'⟩ := paired
  refine ⟨List.mem_of_getElem? found, List.mem_of_getElem? found', ?_⟩
  obtain ⟨inside, rfl⟩ := List.getElem?_eq_some_iff.1 found
  obtain ⟨inside', rfl⟩ := List.getElem?_eq_some_iff.1 found'
  exact same.get inside inside'

/-- String constants with the same text have the same contents. -/
theorem contents?_of_text? {source other : String} {token token' : Token}
    (sound : token.Sound source) (sound' : token'.Sound other) (kind : token.kind = .string)
    (same : SameToken source other token token') :
    token.contents? source = token'.contents? other := by
  obtain ⟨contents, text, isContents, _⟩ := sound.string kind
  obtain ⟨contents', text', isContents', _⟩ := sound'.string (same.kind.symm.trans kind)
  have texts := same.text (.inr kind)
  rw [text, text', Option.some.injEq, String.ofList_inj, List.cons.injEq] at texts
  obtain ⟨rfl, _⟩ := List.append_inj' texts.2 rfl
  rw [isContents, isContents']

/-- Sources of sound tokens that say the same can be compared, and no breakdown but for want of
labels is tolerated. -/
def ofSound (left right : TokenText) (sound : ∀ token ∈ left.tokens, token.Sound left.source)
    (sound' : ∀ token ∈ right.tokens, token.Sound right.source)
    (same : List.Forall₂ (SameToken left.source right.source) left.tokens right.tokens) :
    Comparison where
  left := left
  right := right
  Tolerates breakdown := breakdown = .labelsExhausted
  exhausted := rfl
  length_eq := same.length_eq
  kind_eq paired := (sameToken_of_pairs same paired).2.2.kind
  text_eq := by
    intro token other paired spoken
    obtain ⟨member, member', same⟩ := sameToken_of_pairs same paired
    obtain ⟨text, isText⟩ := (sound token member).cut
    refine ⟨?_, fun none => absurd none (by simp [isText])⟩
    rcases spoken with kind | ⟨word, kind⟩
    · exact same.text (.inl kind)
    · rw [(sound token member).keyword word kind,
        (sound' other member').keyword word (same.kind ▸ kind)]
  contents_eq := by
    intro token other paired kind
    obtain ⟨member, member', same⟩ := sameToken_of_pairs same paired
    obtain ⟨contents, _, isContents, short⟩ := (sound token member).string kind
    refine ⟨contents?_of_text? (sound token member) (sound' other member') kind same,
      fun none => absurd none (by simp [isContents]), ?_⟩
    intro found isFound none
    rw [isContents, Option.some.injEq] at isFound
    subst isFound
    simp [Code.stringConstant?_eq, short] at none

end Comparison

section Compilers

variable {σ : Type} [LabelSource σ] {unit source other : String} {tokens tokens' : List Token}

/-- The place of a token that was read, as a reader counts it. -/
theorem ofCause_of_located {token : Token} {position : Position} (kind : ErrorKind)
    (located : token.span.position? source = some position) :
    Failure.ofCause unit source (token.span.locate kind) = .error ⟨unit, position, kind⟩ := by
  simp [Failure.ofCause, Error.locate?, Span.locate, located]

/-- The end of a source. -/
theorem ofCause_of_end (kind : ErrorKind) :
    Failure.ofCause unit source ((Span.emptyAt source.utf8ByteSize).locate kind) =
      .error ⟨unit, Position.after source.toList, kind⟩ := by
  have size : source.utf8ByteSize = Token.byteLength source.toList := by
    rw [Token.byteLength_eq, String.ofList_toList]
  have located : (Span.emptyAt source.utf8ByteSize).position? source =
      some (Position.after source.toList) :=
    Span.position?_of_toList (List.append_nil _).symm size
  simp [Failure.ofCause, Error.locate?, Span.locate, located]

/-- Passes that stop for the same reason lead to the same verdict. -/
theorem SameVerdict.of_halts {comparison : Comparison} {reason reason' : Halt}
    (isLeft : comparison.left = ⟨source, tokens, source.utf8ByteSize⟩)
    (isRight : comparison.right = ⟨other, tokens', other.utf8ByteSize⟩)
    (tolerates : ∀ breakdown, comparison.Tolerates breakdown → breakdown = .labelsExhausted)
    (sound : ∀ token ∈ tokens, token.Sound source)
    (sound' : ∀ token ∈ tokens', token.Sound other) (alike : comparison.Halts reason reason') :
    SameVerdict unit source other tokens tokens' (.error (Failure.ofHalt unit source reason))
      (.error (Failure.ofHalt unit other reason')) := by
  cases alike with
  | @atToken token token' paired kind =>
      obtain ⟨index, found, found'⟩ := paired
      rw [isLeft] at found
      rw [isRight] at found'
      obtain ⟨position, located⟩ := (sound _ (List.mem_of_getElem? found)).located
      obtain ⟨position', located'⟩ := (sound' _ (List.mem_of_getElem? found')).located
      simp only [Failure.ofHalt, ofCause_of_located kind located,
        ofCause_of_located kind located']
      exact .atToken found found' located located' kind
  | atEnd kind =>
      rw [isLeft, isRight]
      simp only [Failure.ofHalt, ofCause_of_end]
      exact .atEnd kind
  | broken tolerated =>
      rw [tolerates _ tolerated]
      exact .exhausted

theorem sameVerdict_of_sameTokens (labels : σ) (unit : String)
    (fits : source.utf8ByteSize ≤ Span.maxOffset) (fits' : other.utf8ByteSize ≤ Span.maxOffset)
    {stream stream' : TokenStream} (lexed : TokenStream.ofText source = .ok stream)
    (lexed' : TokenStream.ofText other = .ok stream')
    (same : List.Forall₂ (SameToken source other) stream.remaining stream'.remaining) :
    (compile labels unit source).2 = (compile labels unit other).2 ∧
      SameVerdict unit source other stream.remaining stream'.remaining
        (compile labels unit source).1 (compile labels unit other).1 := by
  have sound := TokenStream.sound_of_ofText fits lexed
  have sound' := TokenStream.sound_of_ofText fits' lexed'
  have isStream := TokenStream.eq_ofTokens_of_ofText lexed
  have isStream' := TokenStream.eq_ofTokens_of_ofText lexed'
  generalize stream.remaining = tokens at *
  generalize stream'.remaining = tokens' at *
  subst isStream isStream'
  let comparison := Comparison.ofSound ⟨source, tokens, source.utf8ByteSize⟩
    ⟨other, tokens', other.utf8ByteSize⟩ sound sound' same
  let start : PassState σ := ⟨.ofTokens tokens source.utf8ByteSize, labels, .empty, ""⟩
  let start' : PassState σ := ⟨.ofTokens tokens' other.utf8ByteSize, labels, .empty, ""⟩
  have level : comparison.Level start start' := ⟨⟨rfl, rfl⟩, ⟨rfl, rfl⟩, rfl, rfl, rfl, rfl⟩
  have outcome : comparison.Outcome (fun code code' _ => code = code')
      (Pass.classDeclaration.run ⟨source, tokens.length + 1⟩ start)
      (Pass.classDeclaration.run ⟨other, tokens'.length + 1⟩ start') :=
    Comparison.concur_classDeclaration level
  have size (tokens : List Token) (ending : Nat) :
      (TokenStream.ofTokens tokens ending).size = tokens.length := Nat.zero_add _
  unfold compile
  rw [lexed, lexed']
  simp only [compileTokens, size]
  revert outcome
  generalize Pass.classDeclaration.run _ start = result
  generalize Pass.classDeclaration.run _ start' = result'
  rintro (⟨level, rfl⟩ | ⟨alike, labels⟩)
  · refine ⟨level.labels, ?_⟩
    dsimp only [Except.mapError]
    rw [level.className]
    exact .compiled _
  · exact ⟨labels, .of_halts rfl rfl (fun _ => id) sound sound' alike⟩

/-- How a text is laid out does not matter. Two texts whose tokens agree in kinds, and in the texts
of names and string constants, want the same number of labels. From the same labels, they draw the
same and come to the same verdict. -/
theorem compile_ignores_layout (labels : σ) (unit : String)
    (fits : source.utf8ByteSize ≤ Span.maxOffset) (fits' : other.utf8ByteSize ≤ Span.maxOffset)
    {stream stream' : TokenStream} (lexed : TokenStream.ofText source = .ok stream)
    (lexed' : TokenStream.ofText other = .ok stream')
    (same : List.Forall₂ (SameToken source other) stream.remaining stream'.remaining) :
    labelsWanted source = labelsWanted other ∧
      (compile labels unit source).2 = (compile labels unit other).2 ∧
      SameVerdict unit source other stream.remaining stream'.remaining
        (compile labels unit source).1 (compile labels unit other).1 := by
  have counted := (sameVerdict_of_sameTokens (⟨0⟩ : Tally) "" fits fits' lexed lexed' same).1
  exact ⟨congrArg Tally.count counted, sameVerdict_of_sameTokens labels unit fits fits' lexed
    lexed' same⟩

end Compilers

/-- Comments, a line and zeros in front of a number do not matter, also for an error behind them. -/
theorem compile_ignores_layout_of_zeros :
    ∃ (source other : String) (stream stream' : TokenStream),
      source.utf8ByteSize ≤ Span.maxOffset ∧ other.utf8ByteSize ≤ Span.maxOffset ∧
      TokenStream.ofText source = .ok stream ∧ TokenStream.ofText other = .ok stream' ∧
      List.Forall₂ (SameToken source other) stream.remaining stream'.remaining ∧
      SameVerdict "A" source other stream.remaining stream'.remaining
        (compile (⟨0⟩ : LabelCounter) "A" source).1 (compile (⟨0⟩ : LabelCounter) "A" other).1 := by
  have fits : "class A\x7b7\x7d".utf8ByteSize ≤ Span.maxOffset := by decide +kernel
  have fits' : "class A\x7b/**/007\n\x7d".utf8ByteSize ≤ Span.maxOffset := by decide +kernel
  have read : Token.readAll 0 [] "class A\x7b7\x7d".toList = .ok
      [⟨.keyword .class, ⟨0, 5⟩⟩, ⟨.identifier, ⟨6, 1⟩⟩, ⟨.punctuation .leftBrace, ⟨7, 1⟩⟩,
        ⟨.integer 7, ⟨8, 1⟩⟩, ⟨.punctuation .rightBrace, ⟨9, 1⟩⟩] := by
    decide +kernel
  have read' : Token.readAll 0 [] "class A\x7b/**/007\n\x7d".toList = .ok
      [⟨.keyword .class, ⟨0, 5⟩⟩, ⟨.identifier, ⟨6, 1⟩⟩, ⟨.punctuation .leftBrace, ⟨7, 1⟩⟩,
        ⟨.integer 7, ⟨12, 3⟩⟩, ⟨.punctuation .rightBrace, ⟨16, 1⟩⟩] := by
    decide +kernel
  have lexed := congrArg (Except.map fun tokens => TokenStream.ofTokens tokens 10) read
  have lexed' := congrArg (Except.map fun tokens => TokenStream.ofTokens tokens 17) read'
  have name : SameToken "class A\x7b7\x7d" "class A\x7b/**/007\n\x7d" ⟨.identifier, ⟨6, 1⟩⟩
      ⟨.identifier, ⟨6, 1⟩⟩ := ⟨rfl, fun _ => by decide +kernel⟩
  have silent {token token' : Token} (kind : token.kind = token'.kind)
      (noText : token.kind ≠ .identifier ∧ token.kind ≠ .string) :
      SameToken "class A\x7b7\x7d" "class A\x7b/**/007\n\x7d" token token' :=
    ⟨kind, fun spoken => absurd spoken (not_or.2 noText)⟩
  have same : List.Forall₂ (SameToken "class A\x7b7\x7d" "class A\x7b/**/007\n\x7d")
      [⟨.keyword .class, ⟨0, 5⟩⟩, ⟨.identifier, ⟨6, 1⟩⟩, ⟨.punctuation .leftBrace, ⟨7, 1⟩⟩,
        ⟨.integer 7, ⟨8, 1⟩⟩, ⟨.punctuation .rightBrace, ⟨9, 1⟩⟩]
      [⟨.keyword .class, ⟨0, 5⟩⟩, ⟨.identifier, ⟨6, 1⟩⟩, ⟨.punctuation .leftBrace, ⟨7, 1⟩⟩,
        ⟨.integer 7, ⟨12, 3⟩⟩, ⟨.punctuation .rightBrace, ⟨16, 1⟩⟩] :=
    .cons (silent rfl (by decide)) (.cons name (.cons (silent rfl (by decide))
      (.cons (silent rfl (by decide)) (.cons (silent rfl (by decide)) .nil))))
  have verdict := compile_ignores_layout (⟨0⟩ : LabelCounter) "A" fits fits' lexed lexed' same
  exact ⟨_, _, _, _, fits, fits', lexed, lexed', same, verdict.2.2⟩

end JackCompiler
