/-!
# Byte offsets in a text

Places in a source text are byte offsets into its UTF-8 form. This module cuts a text between two
such offsets. A cut outside the text, or inside the bytes of one character, has no result.
-/

namespace JackCompiler.Text

/-- The part of `text` between two byte offsets, when both are character boundaries of the text
and come in this order. -/
def slice? (text : String) (lo hi : Nat) : Option String :=
  if bounds : lo ≤ hi ∧ String.Pos.Raw.IsValid text ⟨lo⟩ ∧ String.Pos.Raw.IsValid text ⟨hi⟩ then
    some (String.extract (text.pos ⟨lo⟩ bounds.2.1) (text.pos ⟨hi⟩ bounds.2.2))
  else
    none

/-- A cut succeeds exactly when the text falls apart into three parts whose byte lengths are the
two offsets, and it yields the middle one. -/
theorem slice?_eq_some_iff {text part : String} {lo hi : Nat} :
    slice? text lo hi = some part ↔
      ∃ before after, text = before ++ part ++ after ∧
        lo = before.utf8ByteSize ∧ hi = lo + part.utf8ByteSize := by
  constructor
  · intro found
    unfold slice? at found
    split at found
    · next bounds =>
        have ordered : text.pos ⟨lo⟩ bounds.2.1 ≤ text.pos ⟨hi⟩ bounds.2.2 := by
          simpa [String.Pos.le_iff, String.Pos.Raw.le_iff] using bounds.1
        rw [String.extract_eq_copy_slice _ _ ordered, Option.some.injEq] at found
        obtain ⟨before, after, start, stop⟩ := String.copy_slice_eq_iff_splits.1 ⟨ordered, found⟩
        refine ⟨before, after, stop.eq_append, ?_, ?_⟩
        · simpa using congrArg String.Pos.Raw.byteIdx start.offset_eq_rawEndPos
        · have startOffset := congrArg String.Pos.Raw.byteIdx start.offset_eq_rawEndPos
          have stopOffset := congrArg String.Pos.Raw.byteIdx stop.offset_eq_rawEndPos
          simp at startOffset stopOffset
          omega
    · cases found
  · rintro ⟨before, after, rfl, rfl, rfl⟩
    have startValid : String.Pos.Raw.IsValid (before ++ part ++ after) ⟨before.utf8ByteSize⟩ :=
      String.Pos.Raw.isValid_iff_exists_append.2
        ⟨before, part ++ after, by rw [String.append_assoc], rfl⟩
    have stopValid : String.Pos.Raw.IsValid (before ++ part ++ after)
        ⟨before.utf8ByteSize + part.utf8ByteSize⟩ :=
      String.Pos.Raw.isValid_iff_exists_append.2
        ⟨before ++ part, after, rfl, by simp [String.Pos.Raw.ext_iff]⟩
    have bounds := And.intro (Nat.le_add_right before.utf8ByteSize part.utf8ByteSize)
      (And.intro startValid stopValid)
    rw [slice?, dif_pos bounds]
    have ordered : (before ++ part ++ after).pos _ startValid ≤
        (before ++ part ++ after).pos _ stopValid := by
      simp [String.Pos.le_iff, String.Pos.Raw.le_iff]
    rw [String.extract_eq_copy_slice _ _ ordered, Option.some.injEq]
    refine (String.copy_slice_eq_iff_splits.2 ⟨before, after, ⟨?_, ?_⟩, ⟨rfl, ?_⟩⟩).2
    · rw [String.append_assoc]
    · simp [String.Pos.Raw.ext_iff]
    · simp [String.Pos.Raw.ext_iff]

end JackCompiler.Text
