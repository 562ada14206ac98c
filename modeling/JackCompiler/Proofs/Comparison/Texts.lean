import JackCompiler.Proofs.Lexing.Legible

/-!
# Texts that were read

Tokens that were read from a text are sound: their spans cut the source where they have to, and
start at its characters. This is what a comparison of texts, or of a text to itself, rests on.
-/

namespace JackCompiler

/-- What holds of every token that was read from a source. -/
structure Token.Sound (source : String) (token : Token) : Prop where
  located : ∃ position, token.span.position? source = some position
  cut : ∃ text, token.text? source = some text
  keyword : ∀ word, token.kind = .keyword word → token.text? source = some word.text
  /-- A string constant has its contents between its quotes. -/
  string : token.kind = .string → ∃ contents,
    token.text? source = some (String.ofList ('"' :: (contents ++ ['"']))) ∧
      token.contents? source = some (String.ofList contents) ∧
      (String.ofList contents).utf8ByteSize ≤ Library.maxStringLength

namespace Token

variable {source : String} {before piece after : List Char}

theorem sound_of_spells {kind : Kind} (fits : source.utf8ByteSize ≤ Span.maxOffset)
    (shape : source.toList = before ++ piece ++ after) (spells : Spells piece kind) :
    (spanning kind before piece).Sound source := by
  have text := text?_of_ascii kind shape (ascii_of_spells spells)
  have shape' := shape
  rw [List.append_assoc] at shape'
  refine ⟨⟨_, Span.position?_of_toList shape' rfl⟩, ⟨_, text⟩, ?_, ?_⟩
  · rintro word isKeyword
    cases isKeyword
    exact text?_of_reserved shape spells
  · intro isString
    cases isString
    obtain ⟨contents, rfl, short, all⟩ := spells
    have ascii : ∀ character ∈ contents, character.toNat < 128 :=
      fun character member => toNat_of_isStringCharacter (all character member)
    have whole : ('"' :: (contents ++ ['"'])).length ≤ Span.maxLength := by
      simp only [maxStringLength, Span.maxLength, List.length_cons, List.length_append,
        List.length_nil] at *
      omega
    refine ⟨contents, ?_, contents?_of_quoted fits shape short ascii, ?_⟩
    · rw [text, List.take_of_length_le whole]
    · rw [← byteLength_eq, byteLength_eq_length ascii]
      exact short

end Token

/-- All tokens of a text are sound. -/
theorem TokenStream.sound_of_ofText {source : String} {stream : TokenStream}
    (fits : source.utf8ByteSize ≤ Span.maxOffset) (success : ofText source = .ok stream) :
    ∀ token ∈ stream.remaining, token.Sound source :=
  forall_of_ofText (fun shape _ => Token.sound_of_spells fits shape) success

end JackCompiler
