import JackCompiler.Proofs.Lexing.Specification

/-!
# Block comments

A block comment ends at the first closing mark behind its opening mark. A reader that looks at one
character at a time has two loops for this: the outer looks for a star, the inner passes the stars
that follow it and then looks for a slash. Of a near miss no more than its last character matters,
which is why the outer loop can go on where the inner one stopped. Each of the three places at which
the loops are left has its own account of the text that was passed.
-/

namespace JackCompiler

namespace Lexing

/-- What ends a block comment. -/
def closingMark : List Char := ['*', '/']

/-! ## The first closing mark -/

/-- A text is split at the first closing mark in it. -/
structure FirstMark (text body rest : List Char) : Prop where
  text_eq : text = body ++ closingMark ++ rest
  /-- No closing mark begins earlier. -/
  first : ∀ before after, text = before ++ closingMark ++ after → body.length ≤ before.length

/-- A text up to its first closing mark holds none. -/
theorem FirstMark.none_before {text body rest : List Char} (first : FirstMark text body rest) :
    ¬closingMark <:+: body := by
  rintro ⟨before, between, shape⟩
  have shorter : body.length ≤ before.length := by
    refine first.first before (between ++ closingMark ++ rest) ?_
    rw [first.text_eq, ← shape]
    simp only [List.append_assoc]
  have longer : before.length + 2 + between.length = body.length := by
    rw [← shape]
    simp only [closingMark, List.length_append, List.length_cons, List.length_nil]
  omega

/-- A closing mark behind a text that holds none is the first. It cannot begin with the last star of
that text, as a star is no slash. -/
theorem FirstMark.of_none {body : List Char} (inside : ¬closingMark <:+: body)
    (rest : List Char) : FirstMark (body ++ closingMark ++ rest) body rest := by
  refine ⟨rfl, fun before after shape => Nat.le_of_not_lt fun shorter => ?_⟩
  rw [List.append_assoc, List.append_assoc] at shape
  obtain ⟨between, rfl⟩ : before <+: body :=
    List.prefix_of_prefix_length_le ⟨_, shape.symm⟩ ⟨_, rfl⟩ (Nat.le_of_lt shorter)
  have shape := List.append_cancel_left ((List.append_assoc _ _ _).symm.trans shape)
  match between with
  | [] => simp at shorter
  | [_] => simp [closingMark] at shape
  | star :: slash :: others =>
      obtain ⟨isStar, shape⟩ := List.cons.inj shape
      obtain ⟨isSlash, _⟩ := List.cons.inj shape
      exact inside ⟨before, others, by simp [closingMark, isStar, isSlash]⟩

/-- A text with a closing mark has a first one. -/
theorem FirstMark.exists_of_found {text : List Char} (found : closingMark <:+: text) :
    ∃ body rest, FirstMark text body rest := by
  rcases exists_closing text with none | ⟨body, rest, rfl, inside⟩
  · exact absurd found none
  · have first := FirstMark.of_none inside rest
    rw [List.append_assoc] at first
    exact ⟨body, rest, first⟩

/-! ## The two loops -/

/-- How the search for the end of a block comment is left, with the bytes read so far. -/
inductive CommentExit
  | closed (size : Nat) (rest : List Char)
  /-- The text ends while a star is looked for. -/
  | amongText (size : Nat)
  /-- The text ends behind a star. -/
  | behindStars (size : Nat)

mutual

/-- The outer loop, which looks for a star. -/
def seekStar (size : Nat) : List Char → CommentExit
  | [] => .amongText size
  | '*' :: following => passStars (size + 1) following
  | other :: following => seekStar (size + other.utf8Size) following

/-- The inner loop, behind a star: it passes further stars and looks at the character after them. -/
def passStars (size : Nat) : List Char → CommentExit
  | [] => .behindStars size
  | '*' :: following => passStars (size + 1) following
  | '/' :: following => .closed (size + 1) following
  | other :: following => seekStar (size + other.utf8Size) following

end

namespace CommentExit

/-- What holds of a text where the loops are left, if `size` bytes were read before it. -/
def Accounts (size : Nat) (text : List Char) : CommentExit → Prop
  | .closed total rest => ∃ body, text = body ++ closingMark ++ rest ∧ ¬closingMark <:+: body ∧
      total = size + Token.byteLength body + 2
  | .amongText total => ¬closingMark <:+: text ∧ text.getLast? ≠ some '*' ∧
      total = size + Token.byteLength text
  | .behindStars total => ¬closingMark <:+: text ∧ text.getLast? = some '*' ∧
      total = size + Token.byteLength text

/-- The result of reading a comment, by the exit of its loops. -/
def result : CommentExit → Except Token.Fault Token.Lexeme
  | .closed size rest => .ok ⟨none, size, rest⟩
  | .amongText size | .behindStars size => .error ⟨.unclosedComment, 0, size⟩

variable {size : Nat} {character : Char} {text : List Char} {exit : CommentExit}

/-- One character more in front, with which no closing mark begins and which is no star alone. -/
theorem Accounts.cons (accounts : exit.Accounts (size + character.utf8Size) text)
    (opens : character = '*' → ∃ next others, text = next :: others ∧ next ≠ '/') :
    exit.Accounts size (character :: text) := by
  have extend {body more : List Char} (inside : ¬closingMark <:+: body)
      (shape : text = body ++ more) : ¬closingMark <:+: character :: body := by
    rw [closingMark, closing_infix_cons, not_or]
    refine ⟨fun ⟨isStar, isSlash⟩ => ?_, inside⟩
    obtain ⟨next, others, shape', apart⟩ := opens isStar
    obtain ⟨following, rfl⟩ := List.head?_eq_some_iff.1 isSlash
    exact apart (List.cons.inj (shape'.symm.trans shape)).1
  have last : (character :: text).getLast? = some '*' ↔ text.getLast? = some '*' := by
    cases text with
    | nil => simpa using fun isStar => by simpa using opens isStar
    | cons next others => rw [List.getLast?_cons_cons]
  cases exit with
  | closed total rest =>
      obtain ⟨body, shape, inside, rfl⟩ := accounts
      refine ⟨character :: body, by rw [shape]; rfl, ?_, ?_⟩
      · exact extend inside (shape.trans (List.append_assoc _ _ _))
      · rw [Token.byteLength_cons, Nat.add_assoc size]
  | amongText total =>
      obtain ⟨inside, otherLast, rfl⟩ := accounts
      refine ⟨extend inside (List.append_nil _).symm, mt last.1 otherLast, ?_⟩
      rw [Token.byteLength_cons, Nat.add_assoc]
  | behindStars total =>
      obtain ⟨inside, starLast, rfl⟩ := accounts
      refine ⟨extend inside (List.append_nil _).symm, last.2 starLast, ?_⟩
      rw [Token.byteLength_cons, Nat.add_assoc]

end CommentExit

/-- Both loops, by induction on the text that is left: the outer has its account of that text, the
inner of the star before it and that text. -/
theorem loops_account (text : List Char) (size : Nat) :
    (seekStar size text).Accounts size text ∧
      (passStars (size + 1) text).Accounts size ('*' :: text) := by
  have star : '*'.utf8Size = 1 := by decide
  induction text generalizing size with
  | nil =>
      refine ⟨⟨by decide, by decide, rfl⟩, by decide, rfl, ?_⟩
      rw [Token.byteLength_cons, Token.byteLength_nil, star]
  | cons first others inductionHypothesis =>
      by_cases isStar : first = '*'
      · subst isStar
        refine ⟨(inductionHypothesis size).2, ?_⟩
        exact (inductionHypothesis (size + 1)).2.cons fun _ => ⟨'*', others, rfl, by decide⟩
      · have outer (size : Nat) :
            (seekStar size (first :: others)).Accounts size (first :: others) := by
          rw [seekStar.eq_3 size first others isStar]
          exact (inductionHypothesis _).1.cons fun same => absurd same isStar
        refine ⟨outer size, ?_⟩
        by_cases isSlash : first = '/'
        · subst isSlash
          exact ⟨[], rfl, by decide, rfl⟩
        · have next := outer (size + 1)
          rw [seekStar.eq_3 _ first others isStar] at next
          rw [passStars.eq_4 _ first others isStar isSlash]
          exact next.cons fun _ => ⟨first, others, rfl, isSlash⟩

/-- The two loops read a block comment as the search for its first closing mark does. -/
theorem blockComment_eq_result (text : List Char) :
    Token.blockComment text = (seekStar 2 text).result := by
  have accounts := (loops_account text 2).1
  unfold Token.blockComment
  cases exit : seekStar 2 text with
  | closed total rest =>
      rw [exit] at accounts
      obtain ⟨body, rfl, inside, rfl⟩ := accounts
      rw [List.append_assoc]
      rw [show closingMark ++ rest = '*' :: '/' :: rest from rfl, closeComment?_append inside]
      rfl
  | amongText total | behindStars total =>
      rw [exit] at accounts
      obtain ⟨inside, _, rfl⟩ := accounts
      rw [closeComment?_eq_none inside]
      rfl

/-! ## Reading a comment -/

section Comment

variable {text body rest : List Char}

/-- A span is as long as its ends are apart, as far as it reaches. -/
theorem length_ofBounds_eq (lo hi : Nat) :
    (Span.ofBounds lo hi).length.toNat = min (hi - lo) Span.maxLength :=
  UInt32.toNat_ofNat_of_lt' (Nat.lt_of_le_of_lt (Nat.min_le_right _ _) (by decide))

theorem byteLength_opening (text : List Char) :
    Token.byteLength ('/' :: '*' :: text) = 2 + Token.byteLength text := by
  have slash : '/'.utf8Size = 1 := by decide
  have star : '*'.utf8Size = 1 := by decide
  rw [Token.byteLength_cons, Token.byteLength_cons, slash, star, ← Nat.add_assoc]

/-- A comment is read up to the first closing mark and no further. -/
theorem lexeme_of_firstMark (first : FirstMark text body rest) :
    Token.lexeme '/' ('*' :: text) =
      .ok ⟨none, Token.byteLength ('/' :: '*' :: (body ++ closingMark)), rest⟩ := by
  rw [first.text_eq]
  exact lexeme_of_trivia (.blockComment first.none_before)

/-- Without a closing mark all of the text is passed, however long it is. -/
theorem lexeme_of_no_mark (none : ¬closingMark <:+: text) :
    Token.lexeme '/' ('*' :: text) =
      .error ⟨.unclosedComment, 0, Token.byteLength ('/' :: '*' :: text)⟩ := by
  show Token.blockComment text = _
  unfold Token.blockComment
  rw [closeComment?_eq_none none, byteLength_opening]

theorem lexeme_ok_iff_found (text : List Char) :
    (∃ read, Token.lexeme '/' ('*' :: text) = .ok read) ↔ closingMark <:+: text := by
  constructor
  · rintro ⟨read, success⟩
    refine Decidable.byContradiction fun none => ?_
    rw [lexeme_of_no_mark none] at success
    cases success
  · intro found
    obtain ⟨body, rest, first⟩ := FirstMark.exists_of_found found
    exact ⟨_, lexeme_of_firstMark first⟩

end Comment

/-- How a block comment is read, by the text behind its opening mark. -/
structure EndsAtMark (text : List Char) : Prop where
  succeeds : (∃ read, Token.lexeme '/' ('*' :: text) = .ok read) ↔ closingMark <:+: text
  /-- The text is read up to the first closing mark with it, and reading goes on right behind. -/
  closed : ∀ body rest, FirstMark text body rest →
    Token.lexeme '/' ('*' :: text) =
        .ok ⟨none, Token.byteLength ('/' :: '*' :: (body ++ closingMark)), rest⟩ ∧
      ∀ offset tokens, Token.readAll offset tokens ('/' :: '*' :: text) =
        Token.readAll (offset + Token.byteLength ('/' :: '*' :: (body ++ closingMark))) tokens rest
  /-- Without a closing mark, the error is located from the opening slash to the end of the text, as
  far as a span reaches. -/
  unclosed : ¬closingMark <:+: text →
    Token.lexeme '/' ('*' :: text) =
        .error ⟨.unclosedComment, 0, Token.byteLength ('/' :: '*' :: text)⟩ ∧
      ∀ offset tokens, ∃ span : Span,
        Token.readAll offset tokens ('/' :: '*' :: text) =
          .error (span.locate .unclosedComment) ∧
        span.lo = offset ∧
        span.length.toNat = min (Token.byteLength ('/' :: '*' :: text)) Span.maxLength
  /-- That is where the error of a whole source is, if the source can be read up to the comment. -/
  inSource : ¬closingMark <:+: text → ∀ (source : String) (segments : List Segment),
    Reading segments source.toList ('/' :: '*' :: text) → Short segments → ∃ span : Span,
      TokenStream.ofText source = .error (span.locate .unclosedComment) ∧
      span.lo = Token.byteLength (characters segments) ∧
      span.length.toNat = min (source.utf8ByteSize - span.lo) Span.maxLength
  /-- The star of the opening mark and a slash behind it close nothing. -/
  openingStar : (∃ read, Token.lexeme '/' ('*' :: '/' :: text) = .ok read) ↔ closingMark <:+: text
  /-- The same comes of the two loops, whose exits all have their account of the text. -/
  loops : Token.blockComment text = (seekStar 2 text).result ∧
    (seekStar 2 text).Accounts 2 text

/-- Every block comment ends at the first closing mark behind its opening mark; without one it is
unclosed from its opening slash to the end of the text. -/
theorem blockComment_ends_at_mark (text : List Char) : EndsAtMark text := by
  have unclosed (none : ¬closingMark <:+: text) (offset : Nat) (tokens : List Token) :
      ∃ span : Span, Token.readAll offset tokens ('/' :: '*' :: text) =
          .error (span.locate .unclosedComment) ∧ span.lo = offset ∧
        span.length.toNat = min (Token.byteLength ('/' :: '*' :: text)) Span.maxLength := by
    refine ⟨_, readAll_of_fault (lexeme_of_no_mark none) offset tokens, rfl, ?_⟩
    rw [length_ofBounds_eq, Nat.add_zero, Nat.add_sub_cancel_left]
  refine ⟨lexeme_ok_iff_found text, ?closed, ?unclosed, ?inSource, ?openingStar, ?loops⟩
  case closed =>
    intro body rest first
    have success := lexeme_of_firstMark first
    exact ⟨success, readAll_of_lexeme success⟩
  case unclosed => exact fun none => ⟨lexeme_of_no_mark none, unclosed none⟩
  case inSource =>
    intro none source segments reading short
    have size := size_of_toList reading.text_eq
    obtain ⟨span, failure, start, length⟩ :=
      unclosed none (Token.byteLength (characters segments)) (tokens 0 segments).reverse
    refine ⟨span, ?_, start, ?_⟩
    · rw [TokenStream.ofText, readAll_of_reading reading short, List.append_nil, Nat.zero_add,
        failure]
      rfl
    · rw [length, start, size, Token.byteLength_append, Nat.add_sub_cancel_left]
  case openingStar =>
    rw [lexeme_ok_iff_found, closingMark, closing_infix_cons]
    simp
  case loops => exact ⟨blockComment_eq_result text, (loops_account text 2).1⟩

/-- Near misses: a slash right behind the opening mark, and stars with a letter between them. -/
example : Token.lexeme '/' "*/ **x***/y".toList = .ok ⟨none, 11, ['y']⟩ := rfl

end Lexing

end JackCompiler
