/-!
# Lines of a text

A line ends at a line feed, and a carriage return directly before that line feed belongs to the
line break. A last line feed starts no further line.
-/

namespace JackCompiler.Text

/-- A line read backwards, without the carriage return that ends it. -/
private def withoutReturn : List Char → List Char
  | '\r' :: characters => characters
  | characters => characters

/-- Collects the lines of `remaining`; `current` holds what was read of the present line, its last
character first. -/
private def collectLines (finished : Array String) (current : List Char) :
    List Char → Array String
  | [] =>
      if current.isEmpty then finished
      else finished.push (String.ofList current.reverse)
  | '\n' :: remaining =>
      collectLines (finished.push (String.ofList (withoutReturn current).reverse)) [] remaining
  | character :: remaining =>
      collectLines finished (character :: current) remaining

/-- The lines of a text, in order and without their line breaks. -/
def lines (text : String) : List String :=
  (collectLines #[] [] text.toList).toList

/-- A line that is read to its line feed is finished. -/
private theorem collectLines_line {line : List Char} (noBreak : '\n' ∉ line)
    (finished : Array String) (current remaining : List Char) :
    collectLines finished current (line ++ '\n' :: remaining) =
      collectLines
        (finished.push (String.ofList (withoutReturn (line.reverse ++ current)).reverse)) []
        remaining := by
  induction line generalizing current with
  | nil => rfl
  | cons character line inductionHypothesis =>
      have noFeed : character ≠ '\n' := fun same => noBreak (same ▸ List.mem_cons_self)
      have others : '\n' ∉ line := fun member => noBreak (List.mem_cons_of_mem _ member)
      rw [List.cons_append, collectLines, inductionHypothesis others, List.reverse_cons,
        List.append_assoc]
      · rfl
      · exact noFeed

/-- Texts that hold no line break are read back as lines, each up to a line feed of its own. -/
theorem lines_join {written : List String}
    (plain : ∀ line ∈ written, '\n' ∉ line.toList ∧ '\r' ∉ line.toList) :
    lines (String.join (written.map (· ++ "\n"))) = written := by
  have collected (finished : Array String) :
      (collectLines finished [] (String.join (written.map (· ++ "\n"))).toList).toList =
        finished.toList ++ written := by
    induction written generalizing finished with
    | nil => simp [collectLines]
    | cons line written inductionHypothesis =>
        obtain ⟨⟨noFeed, noReturn⟩, others⟩ := List.forall_mem_cons.1 plain
        have kept : withoutReturn (line.toList.reverse ++ []) = line.toList.reverse := by
          rw [List.append_nil]
          unfold withoutReturn
          split
          · next characters shape =>
              have ends : '\r' ∈ line.toList.reverse := shape ▸ List.mem_cons_self
              exact absurd (List.mem_reverse.1 ends) noReturn
          · rfl
        have shape : (String.join ((line :: written).map (· ++ "\n"))).toList =
            line.toList ++ '\n' :: (String.join (written.map (· ++ "\n"))).toList := by
          simp
        rw [shape, collectLines_line noFeed, kept, inductionHypothesis others]
        simp
  exact collected #[]

end JackCompiler.Text
