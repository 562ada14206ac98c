import JackCompiler.Token.Basic

/-!
# Token streams

A token stream is the sequence of all tokens of a source with a place in it. It is read strictly
forward, and may be stepped back one token at a time.
-/

namespace JackCompiler

/-- The tokens of a source, parted at the place reached. -/
structure TokenStream where
  /-- The tokens read so far, the latest first. -/
  consumed : List Token
  /-- The tokens still to be read. -/
  remaining : List Token
  /-- The byte length of the source, where errors at the end of input are located. -/
  ending : Nat
  deriving DecidableEq

namespace TokenStream

/-- A stream at its start. -/
def ofTokens (tokens : List Token) (ending : Nat) : TokenStream := ⟨[], tokens, ending⟩

/-- All the tokens, from the first to the last, wherever the place is. -/
def tokens (stream : TokenStream) : List Token := stream.consumed.reverse ++ stream.remaining

/-- The next token, which stays unread. -/
def peek? (stream : TokenStream) : Option Token := stream.remaining.head?

/-- Reads the next token; there is none at the end. -/
def next? (stream : TokenStream) : Option (Token × TokenStream) :=
  match stream.remaining with
  | [] => none
  | token :: remaining =>
      some (token, { stream with consumed := token :: stream.consumed, remaining })

/-- Makes the latest token unread again; there is none at the start. -/
def pushback? (stream : TokenStream) : Option TokenStream :=
  match stream.consumed with
  | [] => none
  | token :: consumed => some { stream with consumed, remaining := token :: stream.remaining }

/-- Whether a token is left to be read. -/
def hasNext (stream : TokenStream) : Bool := !stream.remaining.isEmpty

/-- How many tokens there are, read or not. -/
def size (stream : TokenStream) : Nat := stream.consumed.length + stream.remaining.length

/-- Whether there are no tokens at all. -/
def isEmpty (stream : TokenStream) : Bool := stream.consumed.isEmpty && stream.remaining.isEmpty

/-- The span of the latest token, and the empty span at offset zero before the first one. -/
def lastSpan (stream : TokenStream) : Span :=
  match stream.consumed with
  | [] => .emptyAt 0
  | token :: _ => token.span

/-- The empty span at the end of the source. -/
def endSpan (stream : TokenStream) : Span := .emptyAt stream.ending

/-- Reading moves the place and keeps the tokens. -/
theorem tokens_of_next? {stream after : TokenStream} {token : Token}
    (read : stream.next? = some (token, after)) : after.tokens = stream.tokens := by
  unfold next? at read
  split at read
  · cases read
  · next remaining shape =>
      cases read
      simp [tokens, shape]

/-- Stepping back moves the place and keeps the tokens. -/
theorem tokens_of_pushback? {stream before : TokenStream}
    (stepped : stream.pushback? = some before) : before.tokens = stream.tokens := by
  unfold pushback? at stepped
  split at stepped
  · cases stepped
  · next consumed shape =>
      cases stepped
      simp [tokens, shape]

end TokenStream

end JackCompiler
