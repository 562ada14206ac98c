import JackCompiler.Files.Tree
import JackCompiler.Proofs.Files.Names

/-!
# Places in file trees

A tree is sound if it can be told from outside as a tree of files: its places are different, they are
made of names, and what is at a place lies in a directory. Paths lead through directories alone, so a
path that leads to a place does so in every tree that has these directories, and only its last
segment can name a file.
-/

namespace JackCompiler.FileTree

variable {tree : FileTree} {place target : Location} {path : Path} {segment name : String}

/-- A place is a directory if the entry there is one. -/
theorem hasDirectory_iff : tree.hasDirectory place ↔ tree.entry? place = some .directory := by
  unfold hasDirectory
  split
  · next found => simp [found]
  · next other => simpa using other

/-- A place is a file if the entry there is one. -/
theorem hasFile_iff : tree.hasFile place ↔ ∃ content, tree.entry? place = some (.file content) := by
  unfold hasFile
  split
  · next content found => simp [found]
  · next other => simpa using other

/-- The root is always a directory. -/
theorem hasDirectory_root (tree : FileTree) : tree.hasDirectory [] := rfl

/-- A place holds one thing. -/
theorem not_hasFile_of_hasDirectory (directory : tree.hasDirectory place) :
    ¬ tree.hasFile place := by
  rw [hasFile_iff, hasDirectory_iff.1 directory]
  rintro ⟨content, ⟨⟩⟩

/-! ## What is put into a tree -/

private theorem lookup_replace (entries : List (Location × Entry)) (entry : Entry)
    (sought : Location) :
    (entries.map fun (location, old) => (location, if location = place then entry else old)).lookup
      sought = (entries.lookup sought).map fun old => if sought = place then entry else old := by
  induction entries with
  | nil => rfl
  | cons first others inductionHypothesis =>
      obtain ⟨location, old⟩ := first
      by_cases here : sought = location
      · simp [here]
      · have apart : (sought == location) = false := beq_false_of_ne here
        rw [List.map_cons, List.lookup_cons, List.lookup_cons, apart]
        exact inductionHypothesis

/-- Putting an entry at a place changes what is there and nothing else. -/
theorem entry?_put (below : place ≠ []) (entry : Entry) (sought : Location) :
    entry? (tree.put place entry) sought =
      if sought = place then some entry else tree.entry? sought := by
  unfold put entry?
  by_cases isRoot : sought = []
  · rw [if_pos isRoot, if_pos isRoot, if_neg fun same => below (same.symm.trans isRoot)]
  · rw [if_neg isRoot, if_neg isRoot]
    by_cases present : (tree.entries.lookup place).isSome
    · rw [if_pos present, lookup_replace]
      by_cases here : sought = place
      · obtain ⟨old, found⟩ := Option.isSome_iff_exists.1 present
        rw [here, found, if_pos rfl]
        simp
      · simp [here]
    · rw [if_neg present, List.lookup_append]
      by_cases here : sought = place
      · rw [here, Option.not_isSome_iff_eq_none.1 present]
        simp
      · have apart : (sought == place) = false := beq_false_of_ne here
        rw [List.lookup_cons, apart, if_neg here]
        simp

/-! ## Walks -/

/-- One attempt after another succeeds if both do. -/
theorem bind_eq_ok_iff {α β : Type} {attempt : Except FileError α} {next : α → Except FileError β}
    {result : β} :
    attempt.bind next = .ok result ↔ ∃ value, attempt = .ok value ∧ next value = .ok result := by
  cases attempt with
  | error error => simp [Except.bind]
  | ok value => simp [Except.bind]

/-- Only from a directory can one walk on. -/
theorem hasDirectory_of_walk (walks : tree.walk place segment = .ok target) :
    tree.hasDirectory place := by
  unfold walk at walks
  split at walks
  · cases walks
  · cases walks
  · next found => exact hasDirectory_iff.2 found

/-- From a directory on, what is in the tree does not matter. -/
theorem walk_of_directory (directory : tree.hasDirectory place) (segment : String) :
    tree.walk place segment =
      if Path.isIdle segment then .ok place
      else if segment = ".." then .ok place.dropLast
      else if maxNameLength < segment.utf8ByteSize then .error .nameTooLong
      else .ok (place ++ [segment]) := by
  unfold walk
  rw [hasDirectory_iff.1 directory]

/-- Segments lead on from where the segments before them lead. -/
theorem walkAll_append (front back : List String) :
    tree.walkAll place (front ++ back) =
      (tree.walkAll place front).bind fun middle => tree.walkAll middle back :=
  List.foldlM_append

/-- The first segment leads somewhere, and the others lead on from there. -/
theorem walkAll_cons (segment : String) (segments : List String) :
    tree.walkAll place (segment :: segments) =
      (tree.walk place segment).bind fun middle => tree.walkAll middle segments := rfl

/-- A single segment leads one step. -/
theorem walkAll_singleton (segment : String) :
    tree.walkAll place [segment] = tree.walk place segment := by
  rw [walkAll_cons]
  cases tree.walk place segment <;> rfl

/-- Segments that lead somewhere pass by a place between any two parts of them. -/
theorem exists_of_walkAll_append {front back : List String}
    (walks : tree.walkAll place (front ++ back) = .ok target) :
    ∃ middle, tree.walkAll place front = .ok middle ∧ tree.walkAll middle back = .ok target := by
  rw [walkAll_append] at walks
  exact bind_eq_ok_iff.1 walks

/-- A path leads to a place if the system takes it and its segments lead there. -/
theorem locateSegments_eq_ok_iff {segments : List String} :
    tree.locateSegments path segments = .ok target ↔
      screen path = .ok () ∧ tree.walkAll (tree.start path) segments = .ok target := by
  unfold locateSegments
  cases screen path with
  | error error => exact ⟨nofun, fun both => nomatch both.1⟩
  | ok => exact ⟨fun leads => ⟨rfl, leads⟩, And.right⟩

/-- A path leads to a place if it passes the screening and its segments lead there from the start.
-/
theorem locate_eq_ok_iff : tree.locate path = .ok target ↔
    screen path = .ok () ∧ tree.walkAll (tree.start path) path.segments = .ok target :=
  locateSegments_eq_ok_iff

/-- A path is a directory if it leads to one. -/
theorem isDirectory_iff : tree.isDirectory path ↔
    ∃ place, tree.locate path = .ok place ∧ tree.hasDirectory place := by
  unfold isDirectory
  cases tree.locate path with
  | error error => simp
  | ok place => simp

/-- A path is a file if it leads to one. -/
theorem isFile_iff : tree.isFile path ↔
    ∃ place, tree.locate path = .ok place ∧ tree.hasFile place := by
  unfold isFile
  cases tree.locate path with
  | error error => simp
  | ok place => simp

/-- A path that leads to a directory lists the names in it. -/
theorem list_of_directory (leads : tree.locate path = .ok place)
    (directory : tree.hasDirectory place) : tree.list path = .ok (tree.names place) := by
  unfold list
  rw [leads]
  simp only [bind, Except.bind, hasDirectory_iff.1 directory]
  rfl

/-- Idle segments lead nowhere else. -/
theorem walkAll_idle (directory : tree.hasDirectory place) {segments : List String}
    (idle : ∀ segment ∈ segments, Path.isIdle segment) : tree.walkAll place segments = .ok place := by
  induction segments with
  | nil => rfl
  | cons segment segments inductionHypothesis =>
      obtain ⟨isIdle, others⟩ := List.forall_mem_cons.1 idle
      rw [walkAll_cons, walk_of_directory directory, if_pos isIdle]
      exact inductionHypothesis others

/-- The directories of one tree are directories of another one, and both have the same home. -/
structure Extends (smaller larger : FileTree) : Prop where
  workingDirectory : larger.workingDirectory = smaller.workingDirectory
  directories : ∀ {place : Location}, smaller.hasDirectory place → larger.hasDirectory place

namespace Extends

variable {smaller larger : FileTree}

theorem refl (tree : FileTree) : Extends tree tree := ⟨rfl, id⟩

/-- A step in a tree is a step in every tree that extends it. -/
theorem walk (extend : Extends smaller larger) (walks : smaller.walk place segment = .ok target) :
    larger.walk place segment = .ok target := by
  have directory := hasDirectory_of_walk walks
  rw [walk_of_directory directory] at walks
  rw [walk_of_directory (extend.directories directory)]
  exact walks

/-- Steps in a tree are steps in every tree that extends it. -/
theorem walkAll (extend : Extends smaller larger) {segments : List String}
    (walks : smaller.walkAll place segments = .ok target) :
    larger.walkAll place segments = .ok target := by
  induction segments generalizing place with
  | nil => exact walks
  | cons segment segments inductionHypothesis =>
      rw [← List.singleton_append] at walks
      obtain ⟨middle, first, others⟩ := exists_of_walkAll_append walks
      rw [walkAll_singleton] at first
      rw [walkAll_cons, extend.walk first]
      exact inductionHypothesis others

/-- A path starts at the same place in every tree that extends one. -/
theorem start (extend : Extends smaller larger) (path : Path) :
    larger.start path = smaller.start path := by
  unfold FileTree.start
  rw [extend.workingDirectory]

/-- Paths that lead somewhere lead there in every tree with the same directories. -/
theorem locate (extend : Extends smaller larger) (leads : smaller.locate path = .ok target) :
    larger.locate path = .ok target := by
  rw [locate_eq_ok_iff] at leads ⊢
  rw [extend.start]
  exact ⟨leads.1, extend.walkAll leads.2⟩

end Extends

/-! ## Paths that differ in the last segment -/

/-- The system takes all paths that are not too long and hold no NUL. -/
theorem screen_eq_ok_iff : screen path = .ok () ↔
    '\x00' ∉ path.text.toList ∧ path.text.utf8ByteSize ≤ maxPathLength := by
  unfold screen
  simp only [List.contains_iff_mem]
  by_cases nul : '\x00' ∈ path.text.toList
  · simp [nul]
  · by_cases long : maxPathLength < path.text.utf8ByteSize
    · simp [nul, long]
    · simp [nul, long, Nat.not_lt.1 long]

section Shared

variable {front : List String} {base : String} {ofName : String → Path}
  (shared : Path.Shared front base ofName)

include shared

/-- With a last segment that is no longer, a path is taken too. -/
theorem screen_of_shared {shorter : String} (fits : screen (ofName name) = .ok ())
    (nul : '\x00' ∉ shorter.toList) (short : shorter.utf8ByteSize ≤ name.utf8ByteSize) :
    screen (ofName shorter) = .ok () := by
  rw [screen_eq_ok_iff, shared.text] at fits ⊢
  rw [String.toList_append, List.mem_append, not_or, String.utf8ByteSize_append] at fits ⊢
  exact ⟨⟨fits.1.1, nul⟩, by omega⟩

/-- The last segment is the last step of the walk. -/
theorem locate_of_shared (walks : tree.walkAll (tree.start ⟨base⟩) front = .ok place)
    (plain : '/' ∉ name.toList) :
    tree.locate (ofName name) = (screen (ofName name)).bind fun _ => tree.walk place name := by
  have start : tree.start (ofName name) = tree.start ⟨base⟩ := by
    unfold FileTree.start
    rw [shared.isAbsolute name plain]
  have walked : tree.walkAll (tree.start (ofName name)) (ofName name).segments =
      tree.walk place name := by
    rw [start, shared.segments name plain, walkAll_append, walks]
    exact walkAll_singleton name
  rw [← walked]
  rfl

end Shared

/-- An entry of a directory is found by its name behind the path of the directory. -/
theorem locate_join {directory : Path} (leads : tree.locate directory = .ok place)
    (plain : '/' ∉ name.toList) :
    tree.locate (directory.join name) =
      (screen (directory.join name)).bind fun _ => tree.walk place name := by
  obtain ⟨front, base, shared, segments, absolute⟩ := directory.exists_shared_join
  obtain ⟨-, walks⟩ := locate_eq_ok_iff.1 leads
  have start : tree.start ⟨base⟩ = tree.start directory := by
    unfold FileTree.start
    rw [absolute]
  rw [← start] at walks
  apply locate_of_shared shared _ plain
  rcases segments with same | slash
  · rwa [same] at walks
  · rw [slash] at walks
    obtain ⟨middle, first, last⟩ := exists_of_walkAll_append walks
    rw [walkAll_singleton] at last
    rw [walk_of_directory (hasDirectory_of_walk last)] at last
    rw [first, ← Except.ok.inj last]

end JackCompiler.FileTree
