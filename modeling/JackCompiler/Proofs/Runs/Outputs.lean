import JackCompiler.CommandLine.Run
import JackCompiler.Proofs.Files.Contents

/-!
# Where output goes

The output of a source has the stem of its name and the extension of code, and lies beside the source
or in the directory for the output. So an output never lies where a source lies, and the outputs of
two sources coincide only if their names do. The path that a run writes to leads to the place of the
output whatever else was written before; a single dot is a stem that has no output, since its path
leads to a directory.
-/

namespace JackCompiler

open FileTree

variable {tree larger : FileTree} {source target : Path} {destination : Destination}
  {front : List String} {directory place goal : Location} {stem text : String}

/-- Where the output of a source belongs. -/
inductive OutputPlace (tree : FileTree) (source : Path) : Destination → Location → Prop
  | beside {directory : Location} {stem : String}
      (leads : tree.locate source = .ok (directory ++ [stem ++ "." ++ sourceExtension])) :
      OutputPlace tree source .besideSources (directory ++ [stem ++ "." ++ codeExtension])
  | inside {directory place : Location} {stem : String} {target : Path}
      (leads : tree.locate source = .ok (directory ++ [stem ++ "." ++ sourceExtension]))
      (inside : tree.locate target = .ok place) (isDirectory : tree.hasDirectory place) :
      OutputPlace tree source (.directory target) (place ++ [stem ++ "." ++ codeExtension])

/-- Whether the outputs of two sources belong to different places. -/
def OutputsApart (tree : FileTree) (destination : Destination) (left right : Path) : Prop :=
  ∀ place, OutputPlace tree left destination place → ¬ OutputPlace tree right destination place

/-- The path that the code of a source is written to, unless it is printed. -/
def Destination.output? : Destination → Path → Option Path
  | .besideSources, source => some (outputPath none source)
  | .directory target, source => some (outputPath (some target) source)
  | .standardOutput, _ => none

/-- Every source has an output path, unless it goes to the standard output. -/
theorem Destination.exists_output? (destination : Destination)
    (files : destination ≠ .standardOutput) (source : Path) :
    ∃ output, destination.output? source = some output := by
  cases destination with
  | standardOutput => exact absurd rfl files
  | besideSources => exact ⟨_, rfl⟩
  | directory target => exact ⟨_, rfl⟩

/-- Whether the directory for the output is there, if there is to be one. -/
def Destination.IsReady (destination : Destination) (tree : FileTree) : Prop :=
  ∀ target, destination = .directory target → tree.isDirectory target

/-! ## Names of sources and of outputs -/

/-- The name of an output is not that of a source. -/
theorem code_ne_source (left right : String) :
    left ++ "." ++ codeExtension ≠ right ++ "." ++ sourceExtension := by
  intro same
  have last := congrArg (fun name : String => name.toList.getLast?) same
  simp [codeExtension, sourceExtension] at last

/-- With one extension, names differ in the stem. -/
theorem stem_eq {left right extension : String}
    (same : left ++ "." ++ extension = right ++ "." ++ extension) : left = right := by
  simpa using same

namespace OutputPlace

/-- No source lies where an output belongs. -/
theorem ne_source (output : OutputPlace tree source destination place) (directory : Location)
    (stem : String) : place ≠ directory ++ [stem ++ "." ++ sourceExtension] := by
  intro same
  cases output with
  | beside => exact code_ne_source _ _ (List.append_singleton_inj.1 same).2
  | inside => exact code_ne_source _ _ (List.append_singleton_inj.1 same).2

theorem ne_nil (output : OutputPlace tree source destination place) : place ≠ [] := by
  cases output <;> exact List.concat_ne_nil _ _

theorem ne_standardOutput (output : OutputPlace tree source destination place) :
    destination ≠ .standardOutput := by
  cases output <;> exact nofun

/-- A source has one output. -/
theorem unique {other : Location} (left : OutputPlace tree source destination place)
    (right : OutputPlace tree source destination other) : place = other := by
  cases left with
  | beside first =>
      cases right with
      | beside second =>
          obtain ⟨rfl, same⟩ := List.append_singleton_inj.1 (Except.ok.inj (first.symm.trans second))
          rw [stem_eq same]
  | inside first inside =>
      cases right with
      | inside second insideToo =>
          obtain ⟨-, same⟩ := List.append_singleton_inj.1 (Except.ok.inj (first.symm.trans second))
          rw [stem_eq same, Except.ok.inj (inside.symm.trans insideToo)]

/-- Sources with one output have one name. -/
theorem exists_stem {other : Path} (left : OutputPlace tree source destination place)
    (right : OutputPlace tree other destination place) :
    ∃ first second stem, tree.locate source = .ok (first ++ [stem ++ "." ++ sourceExtension]) ∧
      tree.locate other = .ok (second ++ [stem ++ "." ++ sourceExtension]) := by
  generalize same : place = output at right
  cases left with
  | beside ofSource =>
      cases right with
      | beside ofOther =>
          rw [← stem_eq (List.append_singleton_inj.1 same).2] at ofOther
          exact ⟨_, _, _, ofSource, ofOther⟩
  | inside ofSource =>
      cases right with
      | inside ofOther =>
          rw [← stem_eq (List.append_singleton_inj.1 same).2] at ofOther
          exact ⟨_, _, _, ofSource, ofOther⟩

end OutputPlace

/-! ## Paths of outputs -/

/-- The name of a source with the extension of code in place of its own. A single dot joins the dot of
the extension to the parent mark. -/
def codeName (stem : String) : String :=
  if stem = "." then ".." else stem ++ "." ++ codeExtension

/-- Where this name leads to in a directory. -/
def codePlace (directory : Location) (stem : String) : Location :=
  if stem = "." then directory.dropLast else directory ++ [stem ++ "." ++ codeExtension]

/-- The name of an output is shorter than that of its source. -/
theorem size_codeName_le (stem : String) :
    (codeName stem).utf8ByteSize ≤ (stem ++ "." ++ sourceExtension).utf8ByteSize := by
  have shorter : codeExtension.utf8ByteSize ≤ sourceExtension.utf8ByteSize := by decide
  unfold codeName
  split
  · next isDot =>
      rw [isDot]
      decide
  · simp only [String.utf8ByteSize_append]
    omega

/-- What the path of a source shows: the directory of the source and the stem of its name. -/
structure HasStem (tree : FileTree) (source : Path) (front : List String) (directory : Location)
    (stem : String) : Prop where
  segments : source.segments = front ++ [stem ++ "." ++ sourceExtension]
  isName : Path.IsName (stem ++ "." ++ sourceExtension)
  split : Path.splitName (stem ++ "." ++ sourceExtension) = (stem, some sourceExtension)
  short : (stem ++ "." ++ sourceExtension).utf8ByteSize ≤ maxNameLength
  walks : tree.walkAll (tree.start source) front = .ok directory
  isDirectory : tree.hasDirectory directory
  leads : tree.locate source = .ok (directory ++ [stem ++ "." ++ sourceExtension])

/-- A source that is a file has a stem. -/
theorem exists_hasStem (sound : tree.Sound) (isFile : tree.isFile source)
    (isSource : isSource source) :
    ∃ front directory stem, HasStem tree source front directory stem := by
  obtain ⟨place, leads, file⟩ := isFile_iff.1 isFile
  obtain ⟨front, name, directory, segments, isName, short, walks, isDirectory, rfl⟩ :=
    sound.exists_name_of_file leads file
  have extension : (Path.splitName name).2 = some sourceExtension := by
    simpa [JackCompiler.isSource, Path.extension?, Path.fileName?_of_segments segments isName]
      using isSource
  obtain ⟨stem, split⟩ : ∃ stem, Path.splitName name = (stem, some sourceExtension) :=
    ⟨_, Prod.ext rfl extension⟩
  obtain ⟨-, rfl⟩ := Path.eq_of_splitName split
  exact ⟨front, directory, stem, segments, isName, split, short, walks, isDirectory, leads⟩

namespace HasStem

/-- A source has the same stem in every tree that extends one. -/
theorem extend (hasStem : HasStem tree source front directory stem) (extend : Extends tree larger) :
    HasStem larger source front directory stem where
  segments := hasStem.segments
  isName := hasStem.isName
  split := hasStem.split
  short := hasStem.short
  walks := by
    rw [extend.start]
    exact extend.walkAll hasStem.walks
  isDirectory := extend.directories hasStem.isDirectory
  leads := extend.locate hasStem.leads

/-- The name of an output is the name of a file. -/
theorem isName_code (hasStem : HasStem tree source front directory stem) :
    Path.IsName (stem ++ "." ++ codeExtension) := by
  have plain := hasStem.isName.plain
  have long : 3 ≤ (stem ++ "." ++ codeExtension).length := by
    rw [String.length_append, String.length_append]
    exact Nat.le_add_left 3 stem.length
  have apart : ∀ other : String, other.length < 3 → stem ++ "." ++ codeExtension ≠ other := by
    rintro other short rfl
    omega
  refine ⟨?_, ?_, apart ".." (by decide)⟩
  · simp only [sourceExtension, String.toList_append, List.mem_append, not_or] at plain
    simp [codeExtension, plain.1.1]
  · rw [Path.isIdle, Bool.or_eq_false_iff, decide_eq_false_iff_not, decide_eq_false_iff_not]
    exact ⟨apart "" (by decide), apart "." (by decide)⟩

theorem plain_codeName (hasStem : HasStem tree source front directory stem) :
    '/' ∉ (codeName stem).toList := by
  unfold codeName
  split
  · decide
  · exact hasStem.isName_code.plain

/-- The name that a source gets with the extension of code leads to the place of the output, or to a
directory if the stem is a single dot. -/
theorem walk_codeName (hasStem : HasStem tree source front directory stem)
    (isDirectory : tree.hasDirectory place) :
    tree.walk place (codeName stem) = .ok (codePlace place stem) := by
  rw [walk_of_directory isDirectory]
  have short := Nat.le_trans (size_codeName_le stem) hasStem.short
  unfold codeName codePlace at *
  by_cases isDot : stem = "."
  · rw [if_pos isDot, if_pos isDot]
    rfl
  · rw [if_neg isDot] at short
    rw [if_neg isDot, if_neg isDot, if_neg (by simp [hasStem.isName_code.2.1]),
      if_neg hasStem.isName_code.2.2, if_neg (Nat.not_lt.2 short)]

/-- What stands before the name of a source stands before the name of its output. -/
theorem exists_shared (hasStem : HasStem tree source front directory stem) :
    ∃ base ofName, Path.Shared front base ofName ∧
      tree.walkAll (tree.start ⟨base⟩) front = .ok directory ∧
      source = ofName (stem ++ "." ++ sourceExtension) ∧
      outputPath none source = ofName (codeName stem) := by
  have plain : ∀ segment ∈ front, '/' ∉ segment.toList := by
    intro segment member
    have inPath : segment ∈ source.segments := by
      rw [hasStem.segments]
      exact List.mem_append_left _ member
    exact Path.plain_of_mem_segments inPath
  obtain ⟨base, shared⟩ := Path.exists_shared_ofSegments plain
  have ofSource : source = Path.ofSegments (front ++ [stem ++ "." ++ sourceExtension]) := by
    rw [← hasStem.segments, Path.ofSegments_segments]
  have start : tree.start ⟨base⟩ = tree.start source := by
    unfold start
    rw [ofSource, shared.isAbsolute _ hasStem.isName.plain]
  refine ⟨base, _, shared, ?_, ofSource, ?_⟩
  · rw [start]
    exact hasStem.walks
  · exact Path.withExtension_of_splitName hasStem.segments hasStem.isName hasStem.split codeExtension

/-- Beside a source, the path of the output leads there. -/
theorem locate_beside (hasStem : HasStem tree source front directory stem) :
    tree.locate (outputPath none source) = .ok (codePlace directory stem) := by
  obtain ⟨base, ofName, shared, walks, ofSource, ofOutput⟩ := hasStem.exists_shared
  have fits := (locate_eq_ok_iff.1 hasStem.leads).1
  rw [ofSource] at fits
  have nul : '\x00' ∉ (codeName stem).toList := by
    rw [screen_eq_ok_iff, shared.text] at fits
    simp only [String.toList_append, List.mem_append, not_or] at fits
    unfold codeName
    split
    · decide
    · simp [fits.1.2.1.1, codeExtension]
  rw [ofOutput, locate_of_shared shared walks hasStem.plain_codeName,
    screen_of_shared shared fits nul (size_codeName_le stem)]
  exact hasStem.walk_codeName hasStem.isDirectory

/-- The name of the output is what is left of its path in another directory. A single dot leaves
nothing. -/
theorem outputPath_some (hasStem : HasStem tree source front directory stem) (target : Path) :
    outputPath (some target) source =
      target.join (if stem = "." then "" else stem ++ "." ++ codeExtension) := by
  obtain ⟨base, ofName, shared, -, -, ofOutput⟩ := hasStem.exists_shared
  have segments := shared.segments _ hasStem.plain_codeName
  show target.join ((outputPath none source).fileName?.getD "") = _
  rw [ofOutput]
  by_cases isDot : stem = "."
  · have noName : (ofName (codeName stem)).fileName? = none := by
      rw [codeName, if_pos isDot] at segments ⊢
      exact Path.fileName?_of_parent segments
    rw [noName, if_pos isDot]
    rfl
  · rw [codeName, if_neg isDot] at segments ⊢
    rw [Path.fileName?_of_segments segments hasStem.isName_code, if_neg isDot]
    rfl

/-- Inside another directory, the path of the output leads there as far as the system takes it. -/
theorem locate_inside (hasStem : HasStem tree source front directory stem)
    (inside : tree.locate target = .ok place) (isDirectory : tree.hasDirectory place) :
    tree.locate (outputPath (some target) source) =
      (screen (outputPath (some target) source)).bind fun _ =>
        .ok (if stem = "." then place else place ++ [stem ++ "." ++ codeExtension]) := by
  rw [hasStem.outputPath_some target]
  by_cases isDot : stem = "."
  · rw [if_pos isDot, if_pos isDot, locate_join inside (by decide), walk_of_directory isDirectory]
    rfl
  · have walks := hasStem.walk_codeName isDirectory
    rw [codeName, codePlace, if_neg isDot, if_neg isDot] at walks
    rw [if_neg isDot, if_neg isDot, locate_join inside hasStem.isName_code.plain, walks]

/-- A path that a run writes to leads, as far as the system takes it, to the place of the output or to
a directory. Other files do not change this, nor do further directories. -/
theorem locate_output (hasStem : HasStem tree source front directory stem) (sound : tree.Sound)
    (ready : destination.IsReady tree) {path : Path} (output : destination.output? source = some path) :
    ∃ goal, (∀ larger, Extends tree larger →
        larger.locate path = (screen path).bind fun _ => .ok goal) ∧
      (tree.hasDirectory goal ∨ OutputPlace tree source destination goal) := by
  cases destination with
  | besideSources =>
      cases output
      refine ⟨codePlace directory stem, fun larger extend => ?_, ?_⟩
      · have leads := (hasStem.extend extend).locate_beside
        rw [leads, (locate_eq_ok_iff.1 leads).1]
        rfl
      · unfold codePlace
        split
        · exact .inl (sound.hasDirectory_parent hasStem.isDirectory)
        · exact .inr (.beside hasStem.leads)
  | directory target =>
      cases output
      obtain ⟨place, inside, isDirectory⟩ := isDirectory_iff.1 (ready target rfl)
      refine ⟨_, fun larger extend => (hasStem.extend extend).locate_inside (extend.locate inside)
        (extend.directories isDirectory), ?_⟩
      split
      · exact .inl isDirectory
      · exact .inr (.inside hasStem.leads inside isDirectory)
  | standardOutput => cases output

/-- If the path can be written to, it leads to the place of the output. -/
theorem exists_output_of_write (hasStem : HasStem tree source front directory stem)
    (sound : tree.Sound) (ready : destination.IsReady tree) {path : Path} {after : FileTree}
    (output : destination.output? source = some path) (writes : tree.write path text = .ok after) :
    ∃ goal, OutputPlace tree source destination goal ∧ ¬ tree.hasDirectory goal ∧
      ∀ larger, Extends tree larger → larger.locate path = .ok goal := by
  obtain ⟨goal, leads, isGoal⟩ := hasStem.locate_output sound ready output
  obtain ⟨place, located, other, -⟩ := write_eq_ok_iff.1 writes
  rw [leads tree (.refl tree)] at located
  obtain ⟨_, _, same⟩ := bind_eq_ok_iff.1 located
  cases same
  refine ⟨goal, isGoal.resolve_left other, other, fun larger extend => ?_⟩
  rw [leads larger extend]
  exact located

end HasStem

end JackCompiler
