import Mathlib.Data.List.Lex
import Mathlib.Data.String.Basic

/-!
# The order of bytes

Names are compared character by character, and systems compare their bytes. The two orders are one:
the digits of a character's number stand in its bytes from the highest to the lowest, and the first
byte shows how many follow it.
-/

namespace JackCompiler.Text

/-- The bytes of a text in UTF-8. -/
def bytes (text : String) : List UInt8 := text.toUTF8.data.toList

theorem bytes_eq (text : String) : bytes text = text.toList.flatMap String.utf8EncodeChar := by
  rw [bytes, String.toUTF8, ← String.utf8Encode_toList, List.utf8Encode, List.data_toByteArray]

/-! ## Characters -/

private theorem digit_lt {left right : Nat} (less : left < right) :
    left / 64 < right / 64 ∨ left / 64 = right / 64 ∧ left % 64 < right % 64 := by
  omega

/-- Numbers are compared by their digits from the highest to the lowest. -/
private theorem digits_lt {left right : Nat} (less : left < right) (bound : right < 1114112) :
    left / 262144 % 8 < right / 262144 % 8 ∨ left / 262144 % 8 = right / 262144 % 8 ∧
      (left / 4096 % 64 < right / 4096 % 64 ∨ left / 4096 % 64 = right / 4096 % 64 ∧
        (left / 64 % 64 < right / 64 % 64 ∨ left / 64 % 64 = right / 64 % 64 ∧
          left % 64 < right % 64)) := by
  rcases digit_lt less with lessAbove | ⟨sameAbove, last⟩
  · rcases digit_lt lessAbove with lessAbove | ⟨sameAbove, third⟩
    · rcases digit_lt lessAbove with lessAbove | ⟨sameAbove, second⟩
      · simp only [Nat.div_div_eq_div_mul] at lessAbove
        left
        omega
      · simp only [Nat.div_div_eq_div_mul] at sameAbove second
        right
        omega
    · omega
  · omega

/-- A character that comes first has the smaller bytes, whatever follows. -/
private theorem encode_lt {left right : Char} (less : left < right) (before after : List UInt8) :
    String.utf8EncodeChar left ++ before < String.utf8EncodeChar right ++ after := by
  have lower : left.val.toNat < right.val.toNat := less
  have bound : right.val.toNat < 1114112 := by
    have valid := right.valid
    unfold UInt32.isValidChar Nat.isValidChar at valid
    omega
  have digits := digits_lt lower bound
  simp only [String.utf8EncodeChar]
  -- Characters with fewer bytes have the smaller first byte; with as many, the digits decide.
  repeat' split
  all_goals simp only [List.cons_append, List.nil_append, List.cons_lt_cons_iff,
    UInt8.lt_iff_toNat_lt, UInt8.toNat_ofNat', ← UInt8.toNat_inj]
  all_goals simp (disch := omega) only [Nat.mod_eq_of_lt (b := 256)]
  all_goals omega

/-! ## Texts -/

private theorem append_lt_append (front : List UInt8) {left right : List UInt8}
    (less : left < right) : front ++ left < front ++ right := by
  induction front with
  | nil => exact less
  | cons first others inductionHypothesis =>
      exact List.cons_lt_cons_iff.2 (.inr ⟨rfl, inductionHypothesis⟩)

private theorem encodeAll_lt {left right : List Char} (less : left < right) :
    left.flatMap String.utf8EncodeChar < right.flatMap String.utf8EncodeChar := by
  induction less with
  | @nil character characters =>
      have some : String.utf8EncodeChar character ≠ [] := by simp
      obtain ⟨first, others, split⟩ := List.exists_cons_of_ne_nil some
      rw [List.flatMap_nil, List.flatMap_cons, split]
      exact List.nil_lt_cons first _
  | rel first =>
      rw [List.flatMap_cons, List.flatMap_cons]
      exact encode_lt first _ _
  | @cons character _ _ _ inductionHypothesis =>
      rw [List.flatMap_cons, List.flatMap_cons]
      exact append_lt_append (String.utf8EncodeChar character) inductionHypothesis

/-- Texts are in the order of their bytes. -/
theorem bytes_lt {left right : String} (less : left < right) : bytes left < bytes right := by
  rw [bytes_eq, bytes_eq]
  exact encodeAll_lt (String.lt_iff_toList_lt.1 less)

end JackCompiler.Text
