import JackCompiler.Proofs.Files.Soundness

/-!
# Contents of files

What is read through a path is what is at its place, and what is written through it stands there
afterwards and nowhere else. Only a directory at its place keeps a path that leads somewhere from
being written to.
-/

namespace JackCompiler.FileTree

variable {tree after left right : FileTree} {place : Location} {path : Path} {text : String}

theorem fromUTF8?_toUTF8 (text : String) : String.fromUTF8? text.toUTF8 = some text := by
  unfold String.fromUTF8?
  rw [dif_pos (by exact text.isValidUTF8)]
  rfl

theorem read_eq (tree : FileTree) (path : Path) : tree.read path =
    (tree.locate path).bind fun place =>
      match tree.entry? place with
      | some (.file content) => (String.fromUTF8? content).elim (.error .notText) .ok
      | some .directory => .error .isDirectory
      | none => .error .notFound := by
  unfold read
  refine congrArg (Except.bind _) (funext fun place => ?_)
  rcases tree.entry? place with none | directory | content
  · rfl
  · rfl
  · dsimp only
    cases String.fromUTF8? content <;> rfl

theorem write_eq (tree : FileTree) (path : Path) (text : String) : tree.write path text =
    (tree.locate path).bind fun place =>
      if tree.hasDirectory place then .error .isDirectory
      else .ok (tree.put place (.file text.toUTF8)) := by
  unfold write
  refine congrArg (Except.bind _) (funext fun place => ?_)
  cases tree.hasDirectory place <;> rfl

/-- What can be read is in a file. -/
theorem isFile_of_read (reads : tree.read path = .ok text) : tree.isFile path := by
  rw [read_eq] at reads
  obtain ⟨place, located, found⟩ := bind_eq_ok_iff.1 reads
  apply isFile_iff.2 ⟨place, located, hasFile_iff.2 _⟩
  split at found
  · next content isFile => exact ⟨content, isFile⟩
  · cases found
  · cases found

/-- What was written can be read. -/
theorem read_of_written (leads : tree.locate path = .ok place)
    (written : tree.entry? place = some (.file text.toUTF8)) : tree.read path = .ok text := by
  rw [read_eq, leads]
  simp only [Except.bind, written, fromUTF8?_toUTF8]
  rfl

/-- What is read hangs on the place alone. -/
theorem read_congr (leads : left.locate path = right.locate path)
    (same : ∀ place, right.locate path = .ok place → left.entry? place = right.entry? place) :
    left.read path = right.read path := by
  rw [read_eq, read_eq, leads]
  cases located : right.locate path with
  | error error => rfl
  | ok place =>
      simp only [Except.bind]
      rw [same place located]

/-- Text is put where no directory is. -/
theorem write_eq_ok_iff : tree.write path text = .ok after ↔
    ∃ place, tree.locate path = .ok place ∧ ¬ tree.hasDirectory place ∧
      after = tree.put place (.file text.toUTF8) := by
  rw [write_eq, bind_eq_ok_iff]
  apply exists_congr
  intro place
  by_cases isDirectory : tree.hasDirectory place
  · simp [isDirectory]
  · simp [isDirectory, eq_comm]

/-- Why a text cannot be written hangs on the place and on what is a directory. -/
theorem write_eq_error_congr {error : FileError} (leads : left.locate path = right.locate path)
    (same : ∀ place, left.hasDirectory place ↔ right.hasDirectory place) :
    left.write path text = .error error ↔ right.write path text = .error error := by
  rw [write_eq, write_eq, leads]
  cases right.locate path with
  | error error => rfl
  | ok place =>
      by_cases isDirectory : right.hasDirectory place
      · simp [Except.bind, isDirectory, (same place).2 isDirectory]
      · have other : ¬ left.hasDirectory place := fun found => isDirectory ((same place).1 found)
        simp [Except.bind, isDirectory, other]

/-- What is written through a path is put at a name in a directory, so a sound tree stays sound. -/
theorem Sound.write (sound : tree.Sound) (writes : tree.write path text = .ok after) :
    after.Sound := by
  obtain ⟨place, leads, other, rfl⟩ := write_eq_ok_iff.1 writes
  obtain ⟨front, name, directory, -, isName, -, -, parent, rfl⟩ :=
    sound.exists_name_of_walkAll (sound.hasDirectory_start path)
      (fun segment => Path.plain_of_mem_segments) (locate_eq_ok_iff.1 leads).2 other
  exact sound.put isName parent other _

end JackCompiler.FileTree
