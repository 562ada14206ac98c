import JackCompiler.Files.Path
import Mathlib.Logic.Basic

/-!
# Names in paths

What paths to a file look like, and how the path of another file beside it, or in another directory,
is made from them. All that is read off a path hangs on its last segment as soon as this is a name;
the text before it is the same for all names, and so is the place where the path starts.
-/

namespace JackCompiler.Path

/-- Whether a segment is the name of an entry of a directory. -/
def IsName (segment : String) : Prop :=
  '/' ∉ segment.toList ∧ isIdle segment = false ∧ segment ≠ ".."

instance (segment : String) : Decidable (IsName segment) := inferInstanceAs (Decidable (_ ∧ _))

theorem IsName.plain {name : String} (isName : IsName name) : '/' ∉ name.toList := isName.1

variable {path : Path} {front : List String} {name stem extension : String}

theorem trimmed_concat (busy : isIdle name = false) :
    trimmed (front ++ [name]) = front ++ [name] := by
  rw [trimmed, List.reverse_concat, List.dropWhile_cons_of_neg (by simp [busy]),
    List.reverse_cons, List.reverse_reverse]

/-- A name at the end of a path is the name of its file. -/
theorem fileName?_of_segments (split : path.segments = front ++ [name]) (isName : IsName name) :
    path.fileName? = some name := by
  rw [fileName?, split, trimmed_concat isName.2.1, List.getLast?_concat,
    Option.filter_some_pos (by simpa using isName.2.2)]

/-- A path that ends with the parent mark shows no name. -/
theorem fileName?_of_parent (split : path.segments = front ++ [".."]) : path.fileName? = none := by
  rw [fileName?, split, trimmed_concat (by decide), List.getLast?_concat]
  rfl

/-- A name with an extension is a stem and the extension with a dot between them. -/
theorem eq_of_splitName (split : splitName name = (stem, some extension)) :
    stem ≠ "" ∧ name = stem ++ "." ++ extension := by
  revert split
  fun_cases splitName name with
  | case1 reversed characters first reversedStem found =>
      rintro ⟨⟩
      have whole := congrArg List.reverse
        (List.takeWhile_append_dropWhile (p := (· ≠ '.')) (l := name.toList.reverse))
      rw [found, List.reverse_reverse] at whole
      constructor
      · simp
      · rw [String.ext_iff, ← whole]
        simp [characters, reversed]
  | case2 => exact nofun

/-- With another extension a name keeps its stem, unless this is a single dot, which would be joined
with the dot of the extension to the parent mark. -/
theorem nameWithExtension_of_splitName (split : splitName name = (stem, some extension))
    (other : String) :
    nameWithExtension name other = if stem = "." then ".." else stem ++ "." ++ other := by
  unfold nameWithExtension
  rw [split]
  by_cases isDot : stem = "."
  · rw [if_pos isDot, isDot]
    rfl
  · rw [if_neg isDot]
    split
    · next same => exact absurd (Prod.mk.inj same).1 isDot
    · next same =>
        cases same
        rfl

/-- The path that a file has with another extension. -/
theorem withExtension_of_splitName (segments : path.segments = front ++ [name])
    (isName : IsName name) (split : splitName name = (stem, some extension)) (other : String) :
    path.withExtension other =
      ofSegments (front ++ [if stem = "." then ".." else stem ++ "." ++ other]) := by
  rw [withExtension, fileName?_of_segments segments isName]
  show ofSegments ((trimmed path.segments).dropLast ++ [nameWithExtension name other]) = _
  rw [segments, trimmed_concat isName.2.1, List.dropLast_concat, nameWithExtension_of_splitName split]

/-! ## Where paths start -/

/-- Only the beginning of a path says where it starts. -/
theorem isAbsolute_append {text : String} (some : text ≠ "") (more : String) :
    isAbsolute ⟨text ++ more⟩ = isAbsolute ⟨text⟩ := by
  obtain ⟨first, others, split⟩ :=
    List.exists_cons_of_ne_nil fun none => some (String.toList_eq_nil_iff.1 none)
  simp [isAbsolute, split]

/-- A text without slashes does not start at the root. -/
theorem isAbsolute_of_plain {text : String} (plain : '/' ∉ text.toList) :
    isAbsolute ⟨text⟩ = false := by
  rw [isAbsolute, decide_eq_false_iff_not]
  exact fun starts => plain (List.mem_of_head? starts)

/-- What a path has in common with those that differ from it in the last segment. -/
structure Shared (front : List String) (base : String) (ofName : String → Path) : Prop where
  text : ∀ name, (ofName name).text = base ++ name
  segments : ∀ name, '/' ∉ name.toList → (ofName name).segments = front ++ [name]
  isAbsolute : ∀ name, '/' ∉ name.toList → (ofName name).isAbsolute = isAbsolute ⟨base⟩

/-- The segments before the last one are what the paths beside a path have in common with it. -/
theorem exists_shared_ofSegments (plain : ∀ segment ∈ front, '/' ∉ segment.toList) :
    ∃ base, Shared front base fun name => ofSegments (front ++ [name]) := by
  cases front with
  | nil =>
      refine ⟨"", ⟨fun name => ?_, fun name => segments_of_plain, fun name => isAbsolute_of_plain⟩⟩
      simp [ofSegments]
  | cons first others =>
      have some : first :: others ≠ [] := List.cons_ne_nil first others
      refine ⟨(ofSegments (first :: others)).text ++ "/", ⟨?_, ?_, ?_⟩⟩
      · intro name
        rw [ofSegments_concat some]
      · intro name isPlain
        apply segments_ofSegments (List.concat_ne_nil name _)
        exact List.forall_mem_append.2 ⟨plain, List.forall_mem_singleton.2 isPlain⟩
      · intro name _
        rw [ofSegments_concat some]
        exact isAbsolute_append (by simp) name

/-- A directory is what the paths of its entries have in common, whether or not its own path ends
with a slash. -/
theorem exists_shared_join (directory : Path) :
    ∃ front base, Shared front base directory.join ∧
      (directory.segments = front ∨ directory.segments = front ++ [""]) ∧
      isAbsolute ⟨base⟩ = directory.isAbsolute := by
  obtain ⟨text⟩ := directory
  -- A slash goes between a directory and a name, unless the path is empty or ends with one.
  by_cases ends : text.toList.getLast?.all (· = '/')
  · have joined : ∀ name, join ⟨text⟩ name = ⟨text ++ name⟩ := fun name => if_pos ends
    by_cases empty : text = ""
    · subst empty
      refine ⟨[], "", ⟨?_, ?_, ?_⟩, .inr (segments_of_plain List.not_mem_nil), rfl⟩
      · exact fun name => congrArg Path.text (joined name)
      · intro name plain
        rw [joined, String.empty_append]
        exact segments_of_plain plain
      · intro name plain
        rw [joined, String.empty_append]
        exact isAbsolute_of_plain plain
    · obtain ⟨start, split⟩ : ∃ start, text = start ++ "/" := by
        obtain ⟨start, last, split⟩ := (List.eq_nil_or_concat text.toList).resolve_left fun none =>
          empty (String.toList_eq_nil_iff.1 none)
        rw [List.concat_eq_append] at split
        rw [split, List.getLast?_concat] at ends
        refine ⟨String.ofList start, ?_⟩
        rw [String.ext_iff, split]
        simpa using ends
      refine ⟨segments ⟨start⟩, text, ⟨?_, ?_, ?_⟩, .inr ?_, rfl⟩
      · exact fun name => congrArg Path.text (joined name)
      · intro name plain
        rw [joined, split, segments_append, segments_of_plain plain]
      · intro name plain
        rw [joined, isAbsolute_append empty]
      · have whole := segments_append start ""
        have blank : segments ⟨""⟩ = [""] := segments_of_plain List.not_mem_nil
        rw [String.append_empty, blank] at whole
        rw [split, whole]
  · have joined : ∀ name, join ⟨text⟩ name = ⟨text ++ "/" ++ name⟩ := fun name => if_neg ends
    have some : text ≠ "" := by
      rintro rfl
      exact ends rfl
    refine ⟨segments ⟨text⟩, text ++ "/", ⟨?_, ?_, ?_⟩, .inl rfl, isAbsolute_append some _⟩
    · exact fun name => congrArg Path.text (joined name)
    · intro name plain
      rw [joined, segments_append, segments_of_plain plain]
    · intro name plain
      rw [joined, isAbsolute_append (by simp)]

end JackCompiler.Path
