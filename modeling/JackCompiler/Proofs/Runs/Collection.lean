import JackCompiler.CommandLine.Run
import JackCompiler.Proofs.Files.ByteOrder
import JackCompiler.Proofs.Files.Directories
import Mathlib.Data.List.Sort

/-!
# Collecting the sources

The sources of a run are read off the file tree: the path itself if it is no directory, or else the
source files directly inside it, in the order of the bytes of their names. Collecting finds exactly
these in whatever order the directory is listed, and changes nothing.
-/

namespace JackCompiler

open FileTree

variable {tree : FileTree} {path : Path} {place : Location} {name : String}

/-- Whether a name is that of a source in the directory that a path leads to: there is a file of
this name, its extension is that of sources, and neither its path nor the name is one that the system
refuses, whatever the tree holds. -/
structure NamesSource (tree : FileTree) (path : Path) (place : Location) (name : String) :
    Prop where
  file : tree.hasFile (place ++ [name])
  extension : (Path.splitName name).2 = some sourceExtension
  taken : screen (path.join name) = .ok ()
  short : name.utf8ByteSize ≤ maxNameLength

/-- The sources of a run. -/
inductive Collected (tree : FileTree) (path : Path) : List Path → Prop
  /-- What is no directory is the only source. -/
  | file (other : ¬ tree.isDirectory path) (source : isSource path) : Collected tree path [path]
  /-- The sources in a directory are in the order of the bytes of their names. -/
  | directory {place : Location} {names : List String} (leads : tree.locate path = .ok place)
      (isDirectory : tree.hasDirectory place) (some : names ≠ [])
      (ordered : names.Pairwise fun left right => Text.bytes left < Text.bytes right)
      (complete : ∀ name, name ∈ names ↔ NamesSource tree path place name) :
      Collected tree path (names.map path.join)

/-- Why a run has no sources. -/
inductive Uncollected (tree : FileTree) (path : Path) : RunError → Prop
  | notSource (other : ¬ tree.isDirectory path) (noSource : ¬ isSource path) :
      Uncollected tree path (.notSource path)
  | noSources {place : Location} (leads : tree.locate path = .ok place)
      (isDirectory : tree.hasDirectory place)
      (none : ∀ name, ¬ NamesSource tree path place name) :
      Uncollected tree path (.noSources path)

/-! ## The order of names -/

theorem sortedNames_perm (names : List String) : (sortedNames names).Perm names :=
  List.mergeSort_perm names _

theorem sortedNames_pairwise (names : List String) : (sortedNames names).Pairwise (· ≤ ·) := by
  have sorted : (sortedNames names).Pairwise fun left right => decide (left ≤ right) = true := by
    apply List.pairwise_mergeSort
    · intro left middle right first second
      exact decide_eq_true (String.le_trans (of_decide_eq_true first) (of_decide_eq_true second))
    · intro left right
      simpa using String.le_total left right
  exact sorted.imp of_decide_eq_true

/-- The order in which names are listed does not matter. -/
theorem sortedNames_eq_of_perm {left right : List String} (same : left.Perm right) :
    sortedNames left = sortedNames right := by
  apply List.Perm.eq_of_pairwise
    (fun left right _ _ first second => String.le_antisymm first second)
    (sortedNames_pairwise left) (sortedNames_pairwise right)
  exact (sortedNames_perm left).trans (same.trans (sortedNames_perm right).symm)

/-- Different names are in the strict order of their bytes. -/
theorem sortedNames_ordered {names : List String} (distinct : names.Nodup) :
    (sortedNames names).Pairwise fun left right => Text.bytes left < Text.bytes right := by
  have apart : (sortedNames names).Nodup := (sortedNames_perm names).nodup_iff.2 distinct
  apply (sortedNames_pairwise names).imp₂ _ apart
  intro left right below apart
  apply Text.bytes_lt
  exact String.not_le.1 fun above => apart (String.le_antisymm below above)

/-! ## What counts as a source -/

/-- In a directory the extension is that of the name. -/
theorem isSource_join (isName : Path.IsName name) :
    isSource (path.join name) = ((Path.splitName name).2 = some sourceExtension) := by
  obtain ⟨front, base, shared, -, -⟩ := path.exists_shared_join
  have fileName := Path.fileName?_of_segments (shared.segments name isName.plain) isName
  simp [isSource, Path.extension?, fileName]

/-- The path of a name in a directory leads there unless the system refuses it. -/
theorem locate_join_name (leads : tree.locate path = .ok place)
    (isDirectory : tree.hasDirectory place) (isName : Path.IsName name)
    (taken : screen (path.join name) = .ok ()) (short : name.utf8ByteSize ≤ maxNameLength) :
    tree.locate (path.join name) = .ok (place ++ [name]) := by
  rw [locate_join leads isName.plain, taken]
  show tree.walk place name = _
  rw [walk_of_directory isDirectory, if_neg (by simp [isName.2.1]), if_neg isName.2.2,
    if_neg (Nat.not_lt.2 short)]

/-- A name leads to a file only if this is the file of that name. -/
theorem isFile_join (sound : tree.Sound) (leads : tree.locate path = .ok place)
    (isDirectory : tree.hasDirectory place) (isName : Path.IsName name) :
    tree.isFile (path.join name) ↔ tree.hasFile (place ++ [name]) ∧
      screen (path.join name) = .ok () ∧ name.utf8ByteSize ≤ maxNameLength := by
  rw [isFile_iff]
  constructor
  · rintro ⟨target, found, file⟩
    rw [locate_join leads isName.plain] at found
    obtain ⟨⟨⟩, taken, walks⟩ := bind_eq_ok_iff.1 found
    rcases sound.walk_cases isName.plain walks with directory | ⟨-, short, rfl⟩
    · exact absurd file (not_hasFile_of_hasDirectory directory)
    · exact ⟨file, taken, short⟩
  · rintro ⟨file, taken, short⟩
    exact ⟨_, locate_join_name leads isDirectory isName taken short, file⟩

/-- A directory lists the names of what is in it. -/
theorem mem_names_of_hasFile (file : tree.hasFile (place ++ [name])) : name ∈ tree.names place := by
  obtain ⟨content, found⟩ := hasFile_iff.1 file
  have inTree := mem_entries (List.concat_ne_nil name place) found
  rw [Sound.names_eq]
  exact List.mem_filterMap.2 ⟨_, List.mem_map_of_mem inTree, Sound.listed_iff.2 rfl⟩

namespace NamesSource

/-- What names a source is the name of a file. -/
theorem isName (named : NamesSource tree path place name) (sound : tree.Sound) :
    Path.IsName name :=
  sound.isName_of_mem_names (mem_names_of_hasFile named.file)

/-- The path of a source leads to it. -/
theorem leads (named : NamesSource tree path place name) (sound : tree.Sound)
    (leads : tree.locate path = .ok place) (isDirectory : tree.hasDirectory place) :
    tree.locate (path.join name) = .ok (place ++ [name]) :=
  locate_join_name leads isDirectory (named.isName sound) named.taken named.short

end NamesSource

/-! ## The listing of a directory -/

section

variable {world : World} {arrange : List String → List String}

theorem run_onlyFiles (paths : List Path) :
    (onlyFiles (World.platform arrange) paths).run world =
      (paths.filter world.tree.isFile, world) := by
  induction paths with
  | nil => rfl
  | cons path paths inductionHypothesis =>
      have step : (onlyFiles (World.platform arrange) (path :: paths)).run world =
          match (onlyFiles (World.platform arrange) paths).run world with
          | (files, after) => (if world.tree.isFile path then path :: files else files, after) := rfl
      rw [step, inductionHypothesis, List.filter_cons]

/-- The names of the sources in a directory, in order. -/
def sourceNames (tree : FileTree) (path : Path) (place : Location) : List String :=
  (sortedNames (tree.names place)).filter fun name =>
    isSource (path.join name) && tree.isFile (path.join name)

/-- The names of the sources are those that name sources. -/
theorem mem_sourceNames (sound : tree.Sound) (leads : tree.locate path = .ok place)
    (isDirectory : tree.hasDirectory place) :
    name ∈ sourceNames tree path place ↔ NamesSource tree path place name := by
  rw [sourceNames, List.mem_filter, (sortedNames_perm _).mem_iff, Bool.and_eq_true]
  constructor
  · rintro ⟨listed, source, file⟩
    have isName := sound.isName_of_mem_names listed
    rw [isSource_join isName] at source
    obtain ⟨found, taken, short⟩ := (isFile_join sound leads isDirectory isName).1 file
    exact ⟨found, source, taken, short⟩
  · rintro ⟨found, source, taken, short⟩
    have listed := mem_names_of_hasFile found
    have isName := sound.isName_of_mem_names listed
    rw [isSource_join isName]
    exact ⟨listed, source, (isFile_join sound leads isDirectory isName).2 ⟨found, taken, short⟩⟩

theorem sourceNames_ordered (sound : tree.Sound) (path : Path) (place : Location) :
    (sourceNames tree path place).Pairwise
      fun left right => Text.bytes left < Text.bytes right :=
  (sortedNames_ordered (sound.nodup_names place)).filter _

/-- What collecting does, in terms of the tree. -/
theorem run_collectSources (path : Path) :
    (collectSources (World.platform arrange) path).run world =
      if world.tree.isDirectory path then
        match world.tree.list path with
        | .error error => (.error (.cannotList path error), world)
        | .ok names =>
            let sources := (((sortedNames (arrange names)).map path.join).filter isSource).filter
              world.tree.isFile
            (if sources.isEmpty then .error (.noSources path) else .ok sources, world)
      else (if isSource path then .ok [path] else .error (.notSource path), world) := by
  show (if world.tree.isDirectory path then _ else _ : StateM World _).run world = _
  cases world.tree.isDirectory path with
  | false => rfl
  | true =>
      show (match (world.tree.list path).map arrange with
        | .error error => pure (.error (.cannotList path error))
        | .ok names => do
            let sources ← onlyFiles (World.platform arrange)
              (((sortedNames names).map path.join).filter isSource)
            pure (if sources.isEmpty then .error (.noSources path) else .ok sources) :
              StateM World (Except RunError (List Path))).run world = _
      cases world.tree.list path with
      | error error => rfl
      | ok names =>
          show (onlyFiles (World.platform arrange) _ >>= _ : StateM World _).run world = _
          rw [StateT.run_bind, run_onlyFiles]
          rfl

/-- The sources in a directory are found in whatever order it is listed. -/
theorem run_collectSources_directory (arranged : ∀ names, (arrange names).Perm names)
    (leads : world.tree.locate path = .ok place) (isDirectory : world.tree.hasDirectory place) :
    (collectSources (World.platform arrange) path).run world =
      (let sources := (sourceNames world.tree path place).map path.join
        if sources.isEmpty then .error (.noSources path) else .ok sources, world) := by
  have isThere : world.tree.isDirectory path = true := isDirectory_iff.2 ⟨place, leads, isDirectory⟩
  have listed := list_of_directory leads isDirectory
  rw [run_collectSources, isThere, listed, sourceNames]
  simp [sortedNames_eq_of_perm (arranged _), List.filter_map, List.filter_filter,
    Function.comp_def, Bool.and_comm]

/-- Collecting finds the sources, or finds that there are none, and changes nothing. -/
theorem run_collectSources_spec (sound : world.tree.Sound) (path : Path) :
    ∃ result, (∀ arrange : List String → List String, (∀ names, (arrange names).Perm names) →
        (collectSources (World.platform arrange) path).run world = (result, world)) ∧
      match result with
      | .ok sources => Collected world.tree path sources
      | .error error => Uncollected world.tree path error := by
  by_cases isThere : world.tree.isDirectory path
  · obtain ⟨place, leads, isDirectory⟩ := isDirectory_iff.1 isThere
    refine ⟨_, fun arrange arranged => run_collectSources_directory arranged leads isDirectory, ?_⟩
    have complete : ∀ name, name ∈ sourceNames world.tree path place ↔
        NamesSource world.tree path place name := fun name =>
          mem_sourceNames sound leads isDirectory
    cases found : sourceNames world.tree path place with
    | nil =>
        rw [found] at complete
        exact .noSources leads isDirectory fun name named =>
          List.not_mem_nil ((complete name).2 named)
    | cons first others =>
        have ordered := sourceNames_ordered sound path place
        rw [found] at complete ordered
        exact .directory leads isDirectory (List.cons_ne_nil first others) ordered complete
  · by_cases source : isSource path
    · refine ⟨.ok [path], fun arrange _ => ?_, .file isThere source⟩
      rw [run_collectSources, if_neg isThere, if_pos source]
    · refine ⟨.error (.notSource path), fun arrange _ => ?_, .notSource isThere source⟩
      rw [run_collectSources, if_neg isThere, if_neg source]

end

end JackCompiler
