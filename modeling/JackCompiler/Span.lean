import JackCompiler.Text.Slice
import JackCompiler.Text.Decimal

/-!
# Spans and positions

A span is a stretch of the source text, kept as a byte offset and a 32-bit length: a longer
stretch keeps its start and has its length clipped. A position is what a reader is shown instead of
an offset, a line and a column counted from one.
-/

namespace JackCompiler

/-- A stretch of the source text. -/
structure Span where
  /-- The byte offset of the first character. -/
  lo : Nat
  /-- The length in bytes. -/
  length : UInt32
  deriving DecidableEq

/-- A value together with the stretch of the source it was found in. -/
structure Located (α : Type) where
  span : Span
  value : α
  deriving DecidableEq

/-- A place in the source as a reader counts it: both numbers start at one, lines end at line
feeds and columns count characters. -/
structure Position where
  line : Nat
  column : Nat
  deriving DecidableEq

namespace Position

/-- Where a text starts. -/
def start : Position := ⟨1, 1⟩

/-- The position after one more character. -/
def next (position : Position) (character : Char) : Position :=
  if character = '\n' then ⟨position.line + 1, 1⟩ else ⟨position.line, position.column + 1⟩

/-- The position reached after reading `characters` from the start of a text. -/
def after (characters : List Char) : Position :=
  characters.foldl next start

@[simp] theorem after_nil : after [] = start := rfl

/-- Each further character moves the position on by one step. -/
@[simp] theorem after_concat (characters : List Char) (character : Char) :
    after (characters ++ [character]) = (after characters).next character := by
  simp [after]

/-- The written form, `LINE:COLUMN`. -/
def text (position : Position) : String :=
  Text.decimal position.line ++ ":" ++ Text.decimal position.column

end Position

namespace Span

/-- The longest length a span can hold. -/
def maxLength : Nat := 4294967295

/-- The largest offset a moved boundary can take. -/
def maxOffset : Nat := 18446744073709551615

/-- The span between two byte offsets, its length clipped to `maxLength`. -/
def ofBounds (lo hi : Nat) : Span :=
  ⟨lo, UInt32.ofNat (min (hi - lo) maxLength)⟩

/-- The empty span at an offset. -/
def emptyAt (offset : Nat) : Span := ⟨offset, 0⟩

/-- The byte offset just after the span. -/
def hi (span : Span) : Nat := span.lo + span.length.toNat

/-- An offset moved by a signed distance, kept between zero and `maxOffset`. -/
def moved (offset : Nat) (distance : Int) : Nat :=
  min (offset + distance).toNat maxOffset

/-- Moves each end by a signed distance. The end never comes before the start. -/
def offset (span : Span) (lo hi : Int) : Span :=
  let newLo := moved span.lo lo
  ofBounds newLo (max (moved span.hi hi) newLo)

/-- The text a span covers, if the span lies inside the source and cuts no character. -/
def text? (span : Span) (source : String) : Option String :=
  Text.slice? source span.lo span.hi

/-- The position of the start of a span; a start beyond the end counts as the end. A start inside
a character has none. -/
def position? (span : Span) (source : String) : Option Position :=
  (Text.slice? source 0 (min span.lo source.utf8ByteSize)).map fun before =>
    Position.after before.toList

/-- The written form, `LO..HI`. -/
def text (span : Span) : String :=
  Text.decimal span.lo ++ ".." ++ Text.decimal span.hi

/-- The detailed form, which also shows the length. -/
def detailedText (span : Span) : String :=
  "Span(" ++ span.text ++ ", len: " ++ Text.decimal span.length.toNat ++ ")"

/-- Attaches a value to a span. -/
def locate {α : Type} (span : Span) (value : α) : Located α := ⟨span, value⟩

@[simp] theorem ofBounds_lo (lo hi : Nat) : (ofBounds lo hi).lo = lo := rfl

/-- A span between offsets that are no further apart than `maxLength` keeps its length. -/
theorem length_ofBounds {lo hi : Nat} (short : hi - lo ≤ maxLength) :
    (ofBounds lo hi).length.toNat = hi - lo := by
  simp only [ofBounds, maxLength] at *
  rw [Nat.min_eq_left short, UInt32.toNat_ofNat_of_lt']
  simp [UInt32.size]
  omega

/-- Such a span also keeps its end. -/
theorem hi_ofBounds {lo hi : Nat} (ordered : lo ≤ hi) (short : hi - lo ≤ maxLength) :
    (ofBounds lo hi).hi = hi := by
  rw [Span.hi, length_ofBounds short, ofBounds_lo]
  omega

end Span

end JackCompiler
