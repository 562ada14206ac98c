/-!
# Paths

A path is a text whose segments are parted by slashes. Empty segments and single dots name no
further place, so the name of a file is the last segment that is neither. What stands behind the
last dot of a name, unless the name begins with that dot, is its extension.

Segments are texts, so directories that hold files whose names are not UTF-8 are outside the model.
-/

namespace JackCompiler

/-- A path as it is written: a text, where a system may also have names that are no UTF-8. -/
structure Path where
  text : String
  deriving DecidableEq

namespace Path

/-- The characters between slashes, empty segments included. -/
private def splitSegments : List Char → List (List Char)
  | [] => [[]]
  | '/' :: characters => [] :: splitSegments characters
  | character :: characters =>
      match splitSegments characters with
      | segment :: segments => (character :: segment) :: segments
      | [] => [[character]]

private theorem splitSegments_ne_nil (characters : List Char) : splitSegments characters ≠ [] := by
  fun_cases splitSegments characters <;> exact List.cons_ne_nil _ _

private theorem splitSegments_cons {character : Char} {characters segment : List Char}
    {segments : List (List Char)} (isPlain : character ≠ '/')
    (split : splitSegments characters = segment :: segments) :
    splitSegments (character :: characters) = (character :: segment) :: segments := by
  rw [splitSegments, split]
  exact isPlain

private theorem splitSegments_append (left right : List Char) :
    splitSegments (left ++ '/' :: right) = splitSegments left ++ splitSegments right := by
  fun_induction splitSegments left with
  | case1 => rfl
  | case2 characters inductionHypothesis => exact congrArg ([] :: ·) inductionHypothesis
  | case3 character characters isPlain segment segments split inductionHypothesis =>
      rw [split] at inductionHypothesis
      exact splitSegments_cons isPlain inductionHypothesis
  | case4 character characters isPlain split =>
      exact absurd split (splitSegments_ne_nil characters)

private theorem splitSegments_of_plain {characters : List Char} (plain : '/' ∉ characters) :
    splitSegments characters = [characters] := by
  induction characters with
  | nil => rfl
  | cons character characters inductionHypothesis =>
      rw [List.mem_cons, not_or] at plain
      exact splitSegments_cons (Ne.symm plain.1) (inductionHypothesis plain.2)

private theorem plain_of_mem_splitSegments {characters segment : List Char}
    (member : segment ∈ splitSegments characters) : '/' ∉ segment := by
  fun_induction splitSegments characters generalizing segment with
  | case1 =>
      rw [List.mem_singleton.1 member]
      exact List.not_mem_nil
  | case2 characters inductionHypothesis =>
      rcases List.mem_cons.1 member with rfl | later
      · exact List.not_mem_nil
      · exact inductionHypothesis later
  | case3 character characters isPlain first segments split inductionHypothesis =>
      rw [split] at inductionHypothesis
      rcases List.mem_cons.1 member with rfl | later
      · rw [List.mem_cons, not_or]
        exact ⟨Ne.symm isPlain, inductionHypothesis List.mem_cons_self⟩
      · exact inductionHypothesis (List.mem_cons_of_mem first later)
  | case4 character characters isPlain split =>
      exact absurd split (splitSegments_ne_nil characters)

private theorem intercalate_splitSegments (characters : List Char) :
    ['/'].intercalate (splitSegments characters) = characters := by
  fun_induction splitSegments characters with
  | case1 => rfl
  | case2 characters inductionHypothesis =>
      rw [List.intercalate_cons_of_ne_nil (splitSegments_ne_nil characters), inductionHypothesis]
      rfl
  | case3 character characters isPlain first segments split inductionHypothesis =>
      rw [split] at inductionHypothesis
      cases segments with
      | nil => simpa using inductionHypothesis
      | cons second others => simpa using inductionHypothesis
  | case4 character characters isPlain split =>
      exact absurd split (splitSegments_ne_nil characters)

/-- The segments between slashes, empty ones included. -/
def segments (path : Path) : List String :=
  (splitSegments path.text.toList).map String.ofList

/-- The path with the given segments. -/
def ofSegments (segments : List String) : Path := ⟨"/".intercalate segments⟩

/-- Even an empty path has a segment, an empty one. -/
theorem segments_ne_nil (path : Path) : path.segments ≠ [] := by
  rw [segments, ne_eq, List.map_eq_nil_iff]
  exact splitSegments_ne_nil path.text.toList

/-- A slash parts the segments before it from those behind it. -/
theorem segments_append (left right : String) :
    segments ⟨left ++ "/" ++ right⟩ = segments ⟨left⟩ ++ segments ⟨right⟩ := by
  simp only [segments, String.toList_append, List.append_assoc]
  rw [← List.map_append]
  exact congrArg _ (splitSegments_append left.toList right.toList)

/-- A text without slashes is one segment. -/
theorem segments_of_plain {text : String} (plain : '/' ∉ text.toList) :
    segments ⟨text⟩ = [text] := by
  rw [segments, splitSegments_of_plain plain, List.map_singleton, String.ofList_toList]

/-- No segment holds a slash. -/
theorem plain_of_mem_segments {path : Path} {segment : String} (member : segment ∈ path.segments) :
    '/' ∉ segment.toList := by
  obtain ⟨characters, inSplit, rfl⟩ := List.mem_map.1 member
  rw [String.toList_ofList]
  exact plain_of_mem_splitSegments inSplit

/-- A path is made of its segments. -/
theorem ofSegments_segments (path : Path) : ofSegments path.segments = path := by
  rw [ofSegments, segments, Path.mk.injEq, String.ext_iff, String.toList_intercalate, List.map_map]
  simpa using intercalate_splitSegments path.text.toList

/-- The last segment stands behind a slash, unless it is the only one. -/
theorem ofSegments_concat {segments : List String} (some : segments ≠ []) (segment : String) :
    ofSegments (segments ++ [segment]) = ⟨(ofSegments segments).text ++ "/" ++ segment⟩ := by
  rw [Path.mk.injEq]
  induction segments with
  | nil => exact absurd rfl some
  | cons first others inductionHypothesis =>
      cases others with
      | nil => simp [ofSegments, String.append_assoc]
      | cons second others =>
          have step := inductionHypothesis (List.cons_ne_nil second others)
          simp only [ofSegments, List.cons_append, String.intercalate_cons_cons] at step ⊢
          rw [step]
          simp only [String.append_assoc]

/-- The segments of a path are those that it is made of. -/
theorem segments_ofSegments {segments : List String} (some : segments ≠ [])
    (plain : ∀ segment ∈ segments, '/' ∉ segment.toList) :
    (ofSegments segments).segments = segments := by
  induction segments with
  | nil => exact absurd rfl some
  | cons first others inductionHypothesis =>
      obtain ⟨firstPlain, othersPlain⟩ := List.forall_mem_cons.1 plain
      cases others with
      | nil =>
          rw [ofSegments, String.intercalate_singleton]
          exact segments_of_plain firstPlain
      | cons second others =>
          rw [ofSegments, String.intercalate_cons_cons, segments_append,
            segments_of_plain firstPlain]
          exact congrArg (first :: ·) (inductionHypothesis (List.cons_ne_nil second others) othersPlain)

/-- Whether the path starts at the root of the file tree. -/
def isAbsolute (path : Path) : Bool :=
  path.text.toList.head? = some '/'

/-- Whether a segment names no further place. -/
def isIdle (segment : String) : Bool := segment = "" || segment = "."

/-- The segments without the idle ones at the end. -/
def trimmed (segments : List String) : List String :=
  (segments.reverse.dropWhile isIdle).reverse

/-- The name of the file or directory; the parent mark names none. -/
def fileName? (path : Path) : Option String :=
  (trimmed path.segments).getLast?.filter (· ≠ "..")

/-- The last dot of a name parts it into a stem and an extension. A name without a dot, or with no
other than its first character, has no extension. -/
def splitName (name : String) : String × Option String :=
  let reversed := name.toList.reverse
  let extension := reversed.takeWhile (· ≠ '.')
  match reversed.dropWhile (· ≠ '.') with
  | '.' :: first :: stem =>
      (String.ofList (first :: stem).reverse, some (String.ofList extension.reverse))
  | _ => (name, none)

/-- The extension of the file name. -/
def extension? (path : Path) : Option String :=
  path.fileName?.bind fun name => (splitName name).2

/-- A name with another extension, which is added if there was none. An old extension is cut off
behind its dot first; when this leaves two dots alone, they are the parent mark, which takes no
extension. -/
def nameWithExtension (name extension : String) : String :=
  match splitName name with
  | (".", some _) => ".."
  | (stem, _) => stem ++ "." ++ extension

/-- The path with the extension of the file name replaced, or added if there was none. A path
without a file name stays as it is. -/
def withExtension (path : Path) (extension : String) : Path :=
  match path.fileName? with
  | some name =>
      ofSegments ((trimmed path.segments).dropLast ++ [nameWithExtension name extension])
  | none => path

/-- The path of an entry of a directory. -/
def join (directory : Path) (name : String) : Path :=
  if directory.text.toList.getLast?.all (· = '/') then ⟨directory.text ++ name⟩
  else ⟨directory.text ++ "/" ++ name⟩

/-- The directory that a path lies in, read off the path alone: the last segment goes, and idle
segments around it with it. There is none for the root, the place a relative path starts from, and
a text without segments. -/
def parent? (path : Path) : Option Path :=
  let isRooted := path.isAbsolute
  match (trimmed path.segments).dropLast with
  | [] => none
  | front =>
      let front := trimmed front
      if front.isEmpty then
        if isRooted then none
        else if path.segments.head? = some "." then some ⟨"."⟩ else none
      else
        some (ofSegments front)

/-- The path and the directories above it, from the path upward, as far as the path shows them. -/
def ancestorsWithin : Nat → Path → List Path
  | 0, _ => []
  | height + 1, path =>
      path :: (match path.parent? with
        | some parent => ancestorsWithin height parent
        | none => [])

/-- The path and the directories above it, from the path upward, as far as the path shows them. -/
def ancestors (path : Path) : List Path :=
  ancestorsWithin path.segments.length path

end Path

end JackCompiler
