import JackCompiler.Files.Platform
import JackCompiler.Proofs.Files.Soundness
import Mathlib.Data.List.TakeWhile

/-!
# Directories that are made

Making a directory with all directories above it adds directories where nothing was, at places that
the path or one of those above it leads to. Whether or not all of them can be made, nothing else
changes, and the tree stays sound; if they can, the path leads to a directory.
-/

namespace JackCompiler

namespace FileTree

variable {tree after : FileTree} {place directory : Location} {path : Path} {name : String}

/-- A directory is one in every tree that extends the tree. -/
theorem Extends.isDirectory {smaller larger : FileTree} (extend : Extends smaller larger)
    (leads : smaller.isDirectory path) : larger.isDirectory path := by
  obtain ⟨place, located, directory⟩ := isDirectory_iff.1 leads
  exact isDirectory_iff.2 ⟨place, extend.locate located, extend.directories directory⟩

/-- Some directories are made, all of them at places that given paths lead to. -/
structure MakesDirectories (paths : List Path) (before after : FileTree) : Prop where
  workingDirectory : after.workingDirectory = before.workingDirectory
  entries : ∀ place, after.entry? place = before.entry? place ∨
    before.entry? place = none ∧ after.entry? place = some .directory ∧
      ∃ path ∈ paths, after.locate path = .ok place

namespace MakesDirectories

variable {paths : List Path} {before middle : FileTree}

/-- Making none of the directories changes nothing. -/
theorem refl (paths : List Path) (tree : FileTree) : MakesDirectories paths tree tree :=
  ⟨rfl, fun _ => .inl rfl⟩

/-- Making directories extends the tree. -/
theorem extend (makes : MakesDirectories paths before after) : Extends before after := by
  refine ⟨makes.workingDirectory, fun {place} isDirectory => ?_⟩
  rw [hasDirectory_iff] at isDirectory ⊢
  rcases makes.entries place with same | ⟨-, made, -⟩
  · rw [same, isDirectory]
  · exact made

/-- Making some directories and then others makes some of all. -/
theorem trans (first : MakesDirectories paths before middle)
    (second : MakesDirectories paths middle after) : MakesDirectories paths before after := by
  refine ⟨second.workingDirectory.trans first.workingDirectory, fun place => ?_⟩
  rcases second.entries place with same | ⟨free, made, leads⟩
  · rw [same]
    rcases first.entries place with same | ⟨free, made, path, member, leads⟩
    · exact .inl same
    · exact .inr ⟨free, made, path, member, second.extend.locate leads⟩
  · rcases first.entries place with same | ⟨-, made, -⟩
    · exact .inr ⟨same ▸ free, made, leads⟩
    · rw [made] at free
      cases free

/-- Files stay as they are, and no new ones are there. -/
theorem file_iff (makes : MakesDirectories paths before after) {content : ByteArray} :
    after.entry? place = some (.file content) ↔ before.entry? place = some (.file content) := by
  rcases makes.entries place with same | ⟨free, made, -⟩
  · rw [same]
  · rw [free, made]
    exact ⟨nofun, nofun⟩

/-- Making some of a few directories makes some of more. -/
theorem mono {more : List Path} (makes : MakesDirectories paths before after)
    (fewer : paths ⊆ more) : MakesDirectories more before after := by
  refine ⟨makes.workingDirectory, fun place => ?_⟩
  rcases makes.entries place with same | ⟨free, made, path, member, leads⟩
  · exact .inl same
  · exact .inr ⟨free, made, path, fewer member, leads⟩

end MakesDirectories

/-- A directory is sought where its path leads to without the slashes at its end. -/
private theorem exists_createDirectory_eq (tree : FileTree) (path : Path) :
    ∃ segments blank, path.segments = segments ++ blank ∧
      (∀ segment ∈ blank, Path.isIdle segment) ∧
      tree.createDirectory path = (tree.locateSegments path segments).bind fun place =>
        if (tree.entry? place).isSome then .error .alreadyExists
        else .ok (tree.put place .directory) := by
  refine ⟨(path.segments.reverse.dropWhile (· = "")).reverse,
    (path.segments.reverse.takeWhile (· = "")).reverse, ?_, ?_, ?_⟩
  · rw [← List.reverse_append, List.takeWhile_append_dropWhile, List.reverse_reverse]
  · intro segment member
    have blank := List.mem_takeWhile_imp (List.mem_reverse.1 member)
    simp only [decide_eq_true_eq] at blank
    rw [blank]
    rfl
  · unfold FileTree.createDirectory
    refine congrArg (Except.bind _) (funext fun place => ?_)
    cases (tree.entry? place).isSome <;> rfl

/-- A directory that is made is new, at the place where its path leads but for idle segments. -/
theorem exists_of_createDirectory (makes : tree.createDirectory path = .ok after) :
    ∃ segments blank place, path.segments = segments ++ blank ∧
      (∀ segment ∈ blank, Path.isIdle segment) ∧ screen path = .ok () ∧
      tree.walkAll (tree.start path) segments = .ok place ∧
      tree.entry? place = none ∧ after = tree.put place .directory := by
  obtain ⟨segments, blank, split, isBlank, same⟩ := exists_createDirectory_eq tree path
  rw [same] at makes
  obtain ⟨place, located, puts⟩ := bind_eq_ok_iff.1 makes
  obtain ⟨fits, walks⟩ := locateSegments_eq_ok_iff.1 located
  cases found : tree.entry? place with
  | some entry =>
      rw [found] at puts
      cases puts
  | none =>
      rw [found] at puts
      cases puts
      exact ⟨segments, blank, place, split, isBlank, fits, walks, found, rfl⟩

/-- A directory that is there is not made again. -/
theorem createDirectory_of_directory (leads : tree.isDirectory path) :
    tree.createDirectory path = .error .alreadyExists := by
  obtain ⟨segments, blank, split, isBlank, same⟩ := exists_createDirectory_eq tree path
  obtain ⟨place, located, directory⟩ := isDirectory_iff.1 leads
  obtain ⟨fits, walks⟩ := locate_eq_ok_iff.1 located
  rw [split] at walks
  obtain ⟨middle, first, last⟩ := exists_of_walkAll_append walks
  have isThere : tree.hasDirectory middle := by
    cases blank with
    | nil =>
        cases last
        exact directory
    | cons segment others =>
        rw [← List.singleton_append] at last
        obtain ⟨next, step, -⟩ := exists_of_walkAll_append last
        rw [walkAll_singleton] at step
        exact hasDirectory_of_walk step
  rw [same, locateSegments_eq_ok_iff.2 ⟨fits, first⟩]
  simp only [Except.bind, hasDirectory_iff.1 isThere]
  rfl

/-- A directory is made where nothing was, inside a directory. -/
theorem Sound.createDirectory (sound : tree.Sound) (makes : tree.createDirectory path = .ok after) :
    after.Sound ∧ MakesDirectories [path] tree after ∧ after.isDirectory path := by
  obtain ⟨segments, blank, place, split, isBlank, fits, walks, free, rfl⟩ :=
    exists_of_createDirectory makes
  have other : ¬ tree.hasDirectory place := by
    rw [hasDirectory_iff, free]
    exact nofun
  have plain : ∀ segment ∈ segments, '/' ∉ segment.toList := by
    intro segment member
    have inPath : segment ∈ path.segments := by
      rw [split]
      exact List.mem_append_left blank member
    exact Path.plain_of_mem_segments inPath
  obtain ⟨front, name, directory, -, isName, -, -, parent, rfl⟩ :=
    sound.exists_name_of_walkAll (sound.hasDirectory_start path) plain walks other
  have below : directory ++ [name] ≠ [] := List.concat_ne_nil name directory
  have extend := extends_put below other .directory
  have made : (tree.put (directory ++ [name]) .directory).hasDirectory (directory ++ [name]) := by
    rw [hasDirectory_iff, entry?_put below, if_pos rfl]
  have leads : (tree.put (directory ++ [name]) .directory).locate path =
      .ok (directory ++ [name]) := by
    rw [locate_eq_ok_iff, split, walkAll_append, extend.start, extend.walkAll walks]
    exact ⟨fits, walkAll_idle made isBlank⟩
  refine ⟨sound.put isName parent other .directory, ⟨extend.workingDirectory, ?_⟩,
    isDirectory_iff.2 ⟨_, leads, made⟩⟩
  intro sought
  rw [entry?_put below]
  by_cases here : sought = directory ++ [name]
  · rw [here, if_pos rfl]
    exact .inr ⟨free, rfl, path, List.mem_singleton_self path, leads⟩
  · rw [if_neg here]
    exact .inl rfl

end FileTree

namespace World

variable {arrange : List String → List String} {path : Path} {world : World}

/-- Some directories are made at places that given paths lead to, and nothing is printed. -/
structure MakesDirectories (paths : List Path) (before after : World) : Prop where
  printed : after.printed = before.printed
  tree : before.tree.MakesDirectories paths after.tree
  sound : after.tree.Sound

namespace MakesDirectories

variable {paths : List Path} {before middle after : World}

/-- Making none of the directories leaves the world as it is. -/
theorem refl (paths : List Path) (sound : world.tree.Sound) :
    MakesDirectories paths world world :=
  ⟨rfl, .refl paths world.tree, sound⟩

/-- Making some directories and then others makes some of all. -/
theorem trans (first : MakesDirectories paths before middle)
    (second : MakesDirectories paths middle after) : MakesDirectories paths before after :=
  ⟨second.printed.trans first.printed, first.tree.trans second.tree, second.sound⟩

/-- Making some of a few directories makes some of more. -/
theorem mono {more : List Path} (makes : MakesDirectories paths before after)
    (fewer : paths ⊆ more) : MakesDirectories more before after :=
  ⟨makes.printed, makes.tree.mono fewer, makes.sound⟩

end MakesDirectories

/-- An operation that fails leaves the world as it was. -/
theorem run_update (operation : FileTree → Except FileError FileTree) (world : World) :
    (update operation).run world =
      match operation world.tree with
      | .ok tree => (.ok (), { world with tree })
      | .error error => (.error error, world) := by
  show (match operation world.tree with
    | .ok tree => do
        set { world with tree }
        pure (.ok ())
    | .error error => pure (.error error) : StateM World (Except FileError Unit)).run world = _
  cases operation world.tree <;> rfl

/-- An attempt to make a directory makes it or leaves the world as it was. -/
theorem createDirectory_cases (arrange : List String → List String) (path : Path)
    (sound : world.tree.Sound) :
    (∃ after, ((platform arrange).createDirectory path).run world = (.ok (), after) ∧
      MakesDirectories [path] world after ∧ after.tree.isDirectory path) ∨
    ∃ error, ((platform arrange).createDirectory path).run world = (.error error, world) ∧
      world.tree.createDirectory path = .error error := by
  have runs : ((platform arrange).createDirectory path).run world = _ :=
    run_update (·.createDirectory path) world
  cases outcome : world.tree.createDirectory path with
  | error error =>
      rw [outcome] at runs
      exact .inr ⟨error, runs, rfl⟩
  | ok tree =>
      rw [outcome] at runs
      obtain ⟨treeSound, makes, leads⟩ := sound.createDirectory outcome
      exact .inl ⟨_, runs, ⟨rfl, makes, treeSound⟩, leads⟩

/-- The search for the first missing directory ends at a path that can be made, or goes on above
it. -/
theorem run_firstMissing_cons (missing : List Path) (path : Path) (above : List Path) :
    ((platform arrange).firstMissing missing (path :: above)).run world =
      match ((platform arrange).createDirectory path).run world with
      | (.ok (), after) => (.ok missing, after)
      | (.error error, after) =>
          if error = .notFound then
            ((platform arrange).firstMissing (path :: missing) above).run after
          else if error = .alreadyExists && after.tree.isDirectory path then (.ok missing, after)
          else (.error error, after) := by
  rw [Platform.firstMissing, StateT.run_bind]
  generalize ((platform arrange).createDirectory path).run world = outcome
  obtain ⟨result, after⟩ := outcome
  cases result with
  | ok => rfl
  | error error =>
      cases error with
      | alreadyExists =>
          show StateT.run (if (true && after.tree.isDirectory path) = true then _ else _) after =
            if (true && after.tree.isDirectory path) = true then _ else _
          cases after.tree.isDirectory path <;> rfl
      | _ => rfl

/-- Directories are made one after another, as long as each of them can be. -/
theorem run_createEach_cons (path : Path) (paths : List Path) :
    ((platform arrange).createEach (path :: paths)).run world =
      match ((platform arrange).createDirectory path).run world with
      | (.ok (), after) => ((platform arrange).createEach paths).run after
      | (.error error, after) =>
          if error = .alreadyExists && after.tree.isDirectory path then
            ((platform arrange).createEach paths).run after
          else (.error error, after) := by
  rw [Platform.createEach, StateT.run_bind]
  generalize ((platform arrange).createDirectory path).run world = outcome
  obtain ⟨result, after⟩ := outcome
  cases result with
  | ok => rfl
  | error error =>
      show StateT.run (if (error = .alreadyExists && after.tree.isDirectory path) = true then _
          else _) after =
        if (error = .alreadyExists && after.tree.isDirectory path) = true then _ else _
      split <;> rfl

/-- Whether one of the given directories cannot be made. -/
def RefusesDirectory (world : World) (paths : List Path) (error : FileError) : Prop :=
  ∃ path ∈ paths, world.tree.createDirectory path = .error error ∧ ¬ world.tree.isDirectory path

/-- An attempt fails unless the directory is there. -/
theorem RefusesDirectory.of_attempt {error : FileError} {paths : List Path}
    (fails : world.tree.createDirectory path = .error error)
    (missing : ¬ (error = .alreadyExists && world.tree.isDirectory path) = true)
    (member : path ∈ paths) : world.RefusesDirectory paths error := by
  refine ⟨path, member, fails, fun isThere => missing ?_⟩
  rw [FileTree.createDirectory_of_directory isThere] at fails
  cases fails
  rw [isThere]
  rfl

/-- What is known of a search for the lowest directory that is there. -/
theorem firstMissing_makes (arrange : List String → List String) (sound : world.tree.Sound)
    (missing paths : List Path) :
    ∃ result after, ((platform arrange).firstMissing missing paths).run world = (result, after) ∧
      MakesDirectories paths world after ∧
      match result with
      | .ok found => missing ⊆ found ∧ found ⊆ missing ++ paths ∧
          ∀ path ∈ paths.head?, path ∈ found ∨ after.tree.isDirectory path
      | .error error => after.RefusesDirectory paths error := by
  -- What is missing is collected on the way up, so it is general.
  induction paths generalizing missing world with
  | nil =>
      refine ⟨.ok missing, world, rfl, .refl [] sound, ?_⟩
      exact ⟨List.Subset.refl missing, List.subset_append_left missing [], nofun⟩
  | cons path above inductionHypothesis =>
      rw [run_firstMissing_cons]
      rcases createDirectory_cases arrange path sound with
        ⟨after, runs, makes, leads⟩ | ⟨error, runs, fails⟩
      · rw [runs]
        refine ⟨.ok missing, after, rfl, makes.mono (by simp),
          List.Subset.refl missing, List.subset_append_left missing _, ?_⟩
        rintro _ ⟨⟩
        exact .inr leads
      · rw [runs]
        by_cases isMissing : error = .notFound
        · obtain ⟨result, after, runs, makes, finds⟩ := inductionHypothesis sound (path :: missing)
          refine ⟨result, after, ?_, makes.mono (List.subset_cons_self path above), ?_⟩
          · simpa [isMissing] using runs
          · cases result with
            | error error =>
                obtain ⟨other, member, refused⟩ := finds
                exact ⟨other, List.mem_cons_of_mem path member, refused⟩
            | ok found =>
                obtain ⟨kept, bound, -⟩ := finds
                obtain ⟨isIn, others⟩ := List.cons_subset.1 kept
                refine ⟨others, fun other member => ?_, ?_⟩
                · have within := bound member
                  simp only [List.mem_append, List.mem_cons] at within ⊢
                  tauto
                · rintro _ ⟨⟩
                  exact .inl isIn
        -- Something is there: a directory, at which the search ends, or what refuses one.
        · by_cases stands : (error = .alreadyExists && world.tree.isDirectory path) = true
          · refine ⟨.ok missing, world, by simp only [if_neg isMissing, if_pos stands],
              .refl _ sound, List.Subset.refl missing, List.subset_append_left missing _, ?_⟩
            rintro _ ⟨⟩
            exact .inr (Bool.and_eq_true_iff.1 stands).2
          · exact ⟨.error error, world, by simp only [if_neg isMissing, if_neg stands],
              .refl _ sound, .of_attempt fails stands List.mem_cons_self⟩

/-- Directories that are made in order are there in the end, and before that nothing else is made. -/
theorem createEach_makes (arrange : List String → List String) (sound : world.tree.Sound)
    (paths : List Path) :
    ∃ result after, ((platform arrange).createEach paths).run world = (result, after) ∧
      MakesDirectories paths world after ∧
      match result with
      | .ok () => ∀ made ∈ paths, after.tree.isDirectory made
      | .error error => after.RefusesDirectory paths error := by
  induction paths generalizing world with
  | nil => exact ⟨.ok (), world, rfl, .refl [] sound, List.forall_mem_nil _⟩
  | cons path paths inductionHypothesis =>
      rw [run_createEach_cons]
      -- In both cases in which the path is there, the others follow.
      have follows : ∀ {middle : World}, MakesDirectories [path] world middle →
          middle.tree.isDirectory path →
          ∃ result after, ((platform arrange).createEach paths).run middle = (result, after) ∧
            MakesDirectories (path :: paths) world after ∧
            match result with
            | .ok () => ∀ made ∈ path :: paths, after.tree.isDirectory made
            | .error error => after.RefusesDirectory (path :: paths) error := by
        intro middle makes leads
        obtain ⟨result, after, runs, others, lead⟩ := inductionHypothesis makes.sound
        refine ⟨result, after, runs, (makes.mono (by simp)).trans (others.mono (by simp)), ?_⟩
        cases result with
        | ok => exact List.forall_mem_cons.2 ⟨others.tree.extend.isDirectory leads, lead⟩
        | error error =>
            obtain ⟨other, member, refused⟩ := lead
            exact ⟨other, List.mem_cons_of_mem path member, refused⟩
      rcases createDirectory_cases arrange path sound with
        ⟨middle, runs, makes, leads⟩ | ⟨error, runs, fails⟩
      · rw [runs]
        exact follows makes leads
      · rw [runs]
        by_cases stands : (error = .alreadyExists && world.tree.isDirectory path) = true
        · simp only [if_pos stands]
          exact follows (.refl _ sound) (Bool.and_eq_true_iff.1 stands).2
        · exact ⟨.error error, world, by simp only [if_neg stands], .refl _ sound,
            .of_attempt fails stands List.mem_cons_self⟩

/-- Directories are made in the same way in whatever order others are listed. -/
theorem createDirectories_arrange (arrange other : List String → List String) (path : Path) :
    (platform arrange).createDirectories path = (platform other).createDirectories path := by
  have search : ∀ paths missing, (platform arrange).firstMissing missing paths =
      (platform other).firstMissing missing paths := by
    intro paths
    induction paths with
    | nil => exact fun missing => rfl
    | cons path above inductionHypothesis =>
        intro missing
        simp only [Platform.firstMissing, inductionHypothesis]
        rfl
  have make : ∀ paths, (platform arrange).createEach paths = (platform other).createEach paths := by
    intro paths
    induction paths with
    | nil => rfl
    | cons path paths inductionHypothesis =>
        simp only [Platform.createEach, inductionHypothesis]
        rfl
  simp only [Platform.createDirectories, search, make]

/-- Making a directory with all directories above it makes directories at places that their paths
lead to, and does nothing else. If it succeeds, the directory is there, and if it fails, one of them
cannot be made. -/
theorem createDirectories_makes (arrange : List String → List String) (sound : world.tree.Sound)
    (path : Path) :
    ∃ result after, ((platform arrange).createDirectories path).run world = (result, after) ∧
      MakesDirectories path.ancestors world after ∧
      match result with
      | .ok () => after.tree.isDirectory path = true
      | .error error => after.RefusesDirectory path.ancestors error := by
  have lowest : path.ancestors.head? = some path := by
    obtain ⟨first, others, split⟩ := List.exists_cons_of_ne_nil path.segments_ne_nil
    rw [Path.ancestors, split]
    rfl
  obtain ⟨result, middle, runs, searched, finds⟩ :=
    firstMissing_makes arrange sound [] path.ancestors
  rw [Platform.createDirectories, StateT.run_bind, runs]
  cases result with
  | error error => exact ⟨.error error, middle, rfl, searched, finds⟩
  | ok missing =>
      obtain ⟨-, bound, first⟩ := finds
      rw [List.nil_append] at bound
      obtain ⟨result, after, runs, made, lead⟩ :=
        createEach_makes arrange searched.sound missing
      refine ⟨result, after, runs, searched.trans (made.mono bound), ?_⟩
      cases result with
      | ok =>
          rcases first path lowest with isMissing | leads
          · exact lead path isMissing
          · exact made.tree.extend.isDirectory leads
      | error error =>
          obtain ⟨above, member, refused⟩ := lead
          exact ⟨above, bound member, refused⟩

end World

end JackCompiler
