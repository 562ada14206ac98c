import JackCompiler.Proofs.Files.Places
import Mathlib.Data.List.Nodup

/-!
# Sound file trees

What makes a list of entries a tree of files: no place twice, every place made of names, everything
inside a directory, and a directory to start from. Making directories keeps this. In such a tree
nothing but a name can lead to a file at the end of a path, and the names in a directory are those of
the places in it.
-/

namespace JackCompiler.FileTree

variable {tree : FileTree} {place directory : Location} {path : Path} {name : String}

/-- Whether the entries of a tree are those of a tree of files without links. -/
structure Sound (tree : FileTree) : Prop where
  distinct : (tree.entries.map Prod.fst).Nodup
  named : ∀ entry ∈ tree.entries, ∀ name ∈ entry.1, Path.IsName name
  closed : ∀ entry ∈ tree.entries, tree.hasDirectory entry.1.dropLast
  home : tree.hasDirectory tree.workingDirectory

instance (tree : FileTree) : Decidable tree.Sound :=
  decidable_of_iff
    ((tree.entries.map Prod.fst).Nodup ∧
      (∀ entry ∈ tree.entries, ∀ name ∈ entry.1, Path.IsName name) ∧
      (∀ entry ∈ tree.entries, tree.hasDirectory entry.1.dropLast) ∧
      tree.hasDirectory tree.workingDirectory)
    ⟨fun ⟨distinct, named, closed, home⟩ => ⟨distinct, named, closed, home⟩,
      fun sound => ⟨sound.distinct, sound.named, sound.closed, sound.home⟩⟩

/-- What is at a place below the root is one of the entries. -/
theorem mem_entries {entry : Entry} (below : place ≠ [])
    (found : tree.entry? place = some entry) : (place, entry) ∈ tree.entries := by
  unfold entry? at found
  rw [if_neg below] at found
  obtain ⟨before, after, split, -⟩ := List.lookup_eq_some_iff.1 found
  rw [split]
  exact List.mem_append_right before List.mem_cons_self

namespace Sound

/-- What is above something is a directory. -/
theorem hasDirectory_dropLast (sound : tree.Sound) (some : (tree.entry? place).isSome) :
    tree.hasDirectory place.dropLast := by
  by_cases isRoot : place = []
  · rw [isRoot]
    exact tree.hasDirectory_root
  · obtain ⟨entry, found⟩ := Option.isSome_iff_exists.1 some
    exact sound.closed _ (mem_entries isRoot found)

/-- A directory is in a directory. -/
theorem hasDirectory_parent (sound : tree.Sound) (directory : tree.hasDirectory place) :
    tree.hasDirectory place.dropLast := by
  apply sound.hasDirectory_dropLast
  rw [hasDirectory_iff.1 directory]
  rfl

/-- Paths start at a directory. -/
theorem hasDirectory_start (sound : tree.Sound) (path : Path) :
    tree.hasDirectory (tree.start path) := by
  unfold start
  by_cases absolute : path.isAbsolute
  · rw [if_pos absolute]
    exact tree.hasDirectory_root
  · rw [if_neg absolute]
    exact sound.home

/-- One step leads to a directory again, unless it is a step to a name. -/
theorem walk_cases (sound : tree.Sound) (plain : '/' ∉ name.toList)
    (walks : tree.walk directory name = .ok place) :
    tree.hasDirectory place ∨
      Path.IsName name ∧ name.utf8ByteSize ≤ maxNameLength ∧ place = directory ++ [name] := by
  have isDirectory := hasDirectory_of_walk walks
  rw [walk_of_directory isDirectory] at walks
  by_cases idle : Path.isIdle name
  · rw [if_pos idle] at walks
    cases walks
    exact .inl isDirectory
  · rw [if_neg idle] at walks
    by_cases parent : name = ".."
    · rw [if_pos parent] at walks
      cases walks
      exact .inl (sound.hasDirectory_parent isDirectory)
    · rw [if_neg parent] at walks
      by_cases long : maxNameLength < name.utf8ByteSize
      · rw [if_pos long] at walks
        cases walks
      · rw [if_neg long] at walks
        cases walks
        exact .inr ⟨⟨plain, Bool.not_eq_true _ ▸ idle, parent⟩, Nat.not_lt.1 long, rfl⟩

/-- What leads to anything but a directory ends with a name, behind what leads to the directory. -/
theorem exists_name_of_walkAll (sound : tree.Sound) {start : Location} {segments : List String}
    (starts : tree.hasDirectory start) (plain : ∀ segment ∈ segments, '/' ∉ segment.toList)
    (walks : tree.walkAll start segments = .ok place) (other : ¬ tree.hasDirectory place) :
    ∃ front name directory, segments = front ++ [name] ∧ Path.IsName name ∧
      name.utf8ByteSize ≤ maxNameLength ∧ tree.walkAll start front = .ok directory ∧
      tree.hasDirectory directory ∧ place = directory ++ [name] := by
  rcases List.eq_nil_or_concat segments with none | ⟨front, name, split⟩
  · rw [none] at walks
    cases walks
    exact absurd starts other
  · rw [List.concat_eq_append] at split
    rw [split] at walks plain
    obtain ⟨directory, first, last⟩ := exists_of_walkAll_append walks
    rw [walkAll_singleton] at last
    have namePlain := plain name (List.mem_append_right front (List.mem_singleton_self name))
    rcases sound.walk_cases namePlain last with isDirectory | ⟨isName, short, same⟩
    · exact absurd isDirectory other
    · exact ⟨front, name, directory, split, isName, short, first, hasDirectory_of_walk last, same⟩

/-- A path to a file ends with the name of the file. -/
theorem exists_name_of_file (sound : tree.Sound) (leads : tree.locate path = .ok place)
    (file : tree.hasFile place) :
    ∃ front name directory, path.segments = front ++ [name] ∧ Path.IsName name ∧
      name.utf8ByteSize ≤ maxNameLength ∧
      tree.walkAll (tree.start path) front = .ok directory ∧ tree.hasDirectory directory ∧
      place = directory ++ [name] := by
  apply sound.exists_name_of_walkAll (sound.hasDirectory_start path)
    (fun segment => Path.plain_of_mem_segments) (locate_eq_ok_iff.1 leads).2
  exact fun isDirectory => not_hasFile_of_hasDirectory isDirectory file

/-- The names in a directory are listed from the places of the tree. -/
theorem names_eq (tree : FileTree) (place : Location) :
    tree.names place = (tree.entries.map Prod.fst).filterMap fun location =>
      if location.dropLast = place then location.getLast? else none := by
  rw [List.filterMap_map]
  rfl

/-- A location is listed under a name if it is that name in the directory. -/
theorem listed_iff {location : Location} :
    (if location.dropLast = place then location.getLast? else none) = some name ↔
      location = place ++ [name] := by
  constructor
  · intro listed
    obtain ⟨rfl, last⟩ := Option.ite_none_right_eq_some.1 listed
    exact (List.dropLast_append_getLast? name last).symm
  · rintro rfl
    rw [List.dropLast_concat, if_pos rfl, List.getLast?_concat]

/-- No name is listed twice. -/
theorem nodup_names (sound : tree.Sound) (place : Location) : (tree.names place).Nodup := by
  rw [names_eq]
  apply List.Nodup.filterMap _ sound.distinct
  intro left right name ofLeft ofRight
  exact (listed_iff.1 ofLeft).trans (listed_iff.1 ofRight).symm

/-- What is listed in a directory is a name. -/
theorem isName_of_mem_names (sound : tree.Sound) (member : name ∈ tree.names place) :
    Path.IsName name := by
  rw [names_eq] at member
  obtain ⟨location, inTree, listed⟩ := List.mem_filterMap.1 member
  obtain ⟨entry, isEntry, rfl⟩ := List.mem_map.1 inTree
  apply sound.named entry isEntry name
  rw [listed_iff.1 listed]
  exact List.mem_append_right place (List.mem_singleton_self name)

end Sound

/-! ## What is put into a sound tree -/

/-- A tree may get entries where it had no directory. -/
theorem extends_put (below : place ≠ []) (other : ¬ tree.hasDirectory place) (entry : Entry) :
    Extends tree (tree.put place entry) := by
  constructor
  · unfold put
    split <;> rfl
  · intro sought isDirectory
    rw [hasDirectory_iff, entry?_put below, if_neg]
    · exact hasDirectory_iff.1 isDirectory
    · rintro rfl
      exact other isDirectory

/-- The places of a tree are the old ones and the one where something is put. -/
theorem places_put (tree : FileTree) (place : Location) (entry : Entry) :
    (tree.put place entry).entries.map Prod.fst =
      if place ∈ tree.entries.map Prod.fst then tree.entries.map Prod.fst
      else tree.entries.map Prod.fst ++ [place] := by
  have present : (tree.entries.lookup place).isSome ↔ place ∈ tree.entries.map Prod.fst := by
    rw [Option.isSome_iff_ne_none, ne_eq, List.lookup_eq_none_iff]
    simp
  unfold put
  simp only [present]
  split
  · rw [List.map_map]
    rfl
  · rw [List.map_append]
    rfl

/-- A sound tree stays sound when something is put at a name in a directory. -/
theorem Sound.put (sound : tree.Sound) (isName : Path.IsName name)
    (parent : tree.hasDirectory directory) (other : ¬ tree.hasDirectory (directory ++ [name]))
    (entry : Entry) : (tree.put (directory ++ [name]) entry).Sound := by
  have below : directory ++ [name] ≠ [] := List.concat_ne_nil name directory
  have extend := extends_put below other entry
  have places := tree.places_put (directory ++ [name]) entry
  have known : ∀ new ∈ (tree.put (directory ++ [name]) entry).entries,
      new.1 ∈ tree.entries.map Prod.fst ∨ new.1 = directory ++ [name] := by
    intro new member
    have isPlace := List.mem_map_of_mem (f := Prod.fst) member
    rw [places] at isPlace
    split at isPlace
    · exact .inl isPlace
    · simpa using isPlace
  constructor
  · rw [places]
    split
    · exact sound.distinct
    · next new =>
        exact List.nodup_append'.2
          ⟨sound.distinct, List.nodup_singleton _, List.disjoint_singleton.2 new⟩
  · intro new member segment inPlace
    rcases known new member with old | here
    · obtain ⟨old, isEntry, same⟩ := List.mem_map.1 old
      exact sound.named old isEntry segment (same ▸ inPlace)
    · rw [here] at inPlace
      rcases List.mem_append.1 inPlace with above | last
      · have some : directory ≠ [] := List.ne_nil_of_mem above
        have found := mem_entries some (hasDirectory_iff.1 parent)
        exact sound.named _ found segment above
      · rwa [List.mem_singleton.1 last]
  · intro new member
    rcases known new member with old | here
    · obtain ⟨old, isEntry, same⟩ := List.mem_map.1 old
      exact extend.directories (same ▸ sound.closed old isEntry)
    · rw [here, List.dropLast_concat]
      exact extend.directories parent
  · rw [extend.workingDirectory]
    exact extend.directories sound.home

end JackCompiler.FileTree
