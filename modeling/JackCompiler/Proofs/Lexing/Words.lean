import JackCompiler.Proofs.Generation.Instructions
import JackCompiler.Proofs.Lexing.Scan
import JackCompiler.Proofs.Recognition.Agreement

/-!
# Names are words

A name in a source is a word: a letter or an underscore, and behind it letters, underscores and
digits. That holds of what a token cuts out of the source, also if its span was clipped.
-/

namespace JackCompiler

open Grammar

namespace Lexing

/-- A word, `[A-Za-z_][A-Za-z0-9_]*`. -/
def IsWord (text : String) : Prop :=
  ∃ first others, text.toList = first :: others ∧ NameStart first ∧
    ∀ character ∈ others, NamePart character

/-- Whether a text is a word is found by looking at its characters. -/
instance (text : String) : Decidable (IsWord text) :=
  match shape : text.toList with
  | [] => .isFalse (by rintro ⟨_, _, same, _⟩; cases shape.symm.trans same)
  | first :: others =>
      decidable_of_iff (Token.startsName first = true ∧ others.all Token.continuesName = true) (by
        constructor
        · rintro ⟨start, parts⟩
          exact ⟨first, others, shape, startsName_iff.1 start, fun character member =>
            continuesName_iff.1 (List.all_eq_true.1 parts character member)⟩
        · rintro ⟨_, _, same, start, parts⟩
          cases shape.symm.trans same
          exact ⟨startsName_iff.2 start, List.all_eq_true.2 fun character member =>
            continuesName_iff.2 (parts character member)⟩)

theorem IsWord.forall_namePart {text : String} (isWord : IsWord text) :
    ∀ character ∈ text.toList, NamePart character := by
  obtain ⟨first, others, shape, start, parts⟩ := isWord
  rw [shape]
  exact List.forall_mem_cons.2 ⟨.inl start, parts⟩

/-- An identifier starts with no digit, since a number does. -/
theorem nameStart_of_lexeme {first : Char} {following : List Char} {read : Token.Lexeme}
    (reading : Token.lexeme first following = .ok read) (isName : read.kind? = some .identifier)
    (part : NamePart first) : NameStart first := by
  rcases part with start | digit
  · exact start
  · rw [lexeme_of_digit digit, Token.integerConstant] at reading
    split at reading
    · cases reading
      cases isName
    · cases reading

end Lexing

open Lexing

/-- What a token shows as a name is a word. -/
theorem TokenStream.isWord_of_name {source text : String} {stream : TokenStream}
    (success : ofText source = .ok stream) :
    ∀ token ∈ stream.remaining, token.terminal? source = some (.name text) → IsWord text := by
  obtain ⟨tokens, reading, rfl⟩ := exists_readAll_of_ofText success
  have before : source.toList = [] ++ source.toList := rfl
  refine Token.forall_of_lexemes ?_ before rfl (List.forall_mem_nil _) reading
  intro kind before piece following first read reading isKind covers shape shown
  have isIdentifier : kind = .identifier := Token.kind_of_terminal? shown
  subst isIdentifier
  have spells := covers.spells _ isKind
  have found := Token.text?_of_ascii .identifier shape (Token.ascii_of_spells spells)
  rw [Token.text?_of_name shown, Option.some.injEq] at found
  obtain ⟨start, others, rfl⟩ := List.exists_cons_of_ne_nil (covers.ne_nil reading)
  obtain ⟨rfl, _⟩ := List.cons.inj covers.shape
  obtain ⟨firstPart, otherParts⟩ := List.forall_mem_cons.1 spells.1
  have isStart := nameStart_of_lexeme reading isKind (continuesName_iff.1 firstPart)
  refine ⟨first, others.take (Span.maxLength - 1), ?_, isStart, ?_⟩
  · rw [found, String.toList_ofList]
    rfl
  · intro character member
    exact continuesName_iff.1 (otherParts _ (List.mem_of_mem_take member))

/-- Every name in the tree of a source is a word. -/
theorem Grammar.ClassDeclaration.IsTreeOf.words {tree : ClassDeclaration} {source : String}
    (isTree : tree.IsTreeOf source) : NamesIn IsWord tree.yield := by
  obtain ⟨stream, lexed, shown⟩ := isTree
  unfold TokenStream.terminals? at shown
  rw [(TokenStream.start_of_ofText lexed).2] at shown
  obtain ⟨_, move, _⟩ := TokenStream.Reads.exists_end shown
  intro text member
  obtain ⟨token, left, isName⟩ := move.exists_token member
  exact TokenStream.isWord_of_name lexed token left isName

end JackCompiler
