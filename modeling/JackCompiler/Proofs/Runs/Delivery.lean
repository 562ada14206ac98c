import JackCompiler.Proofs.Files.Contents
import JackCompiler.Proofs.Files.Directories
import JackCompiler.Proofs.Runs.Outputs

/-!
# Sources one after another

The sources of a run are read, compiled and written one after another, up to the first with which this
fails. How they fare is read off the tree as it was before the first of them: what is written for one
source is neither the text of a later one nor the place of its output. Main statement: what is there
after the sources were processed are the outputs of those that succeeded, and beside them all that was
there before.
-/

namespace JackCompiler

open FileTree

variable {tree : FileTree} {destination : Destination} {source : Path} {place : Location}

/-- A source that was compiled. -/
structure Delivery where
  source : Path
  text : String
  unit : CompiledUnit

/-- How sources fare in a file tree, with one sequence of labels for all of them: which are delivered,
and what stops the others. -/
inductive Progress (tree : FileTree) (destination : Destination) :
    Compiler LabelCounter → List Path → List Delivery → Except RunError Unit → Prop
  | finished {compiler : Compiler LabelCounter} : Progress tree destination compiler [] [] (.ok ())
  | unread {compiler : Compiler LabelCounter} {source : Path} {later : List Path} {error : FileError}
      (fails : tree.read source = .error error) :
      Progress tree destination compiler (source :: later) [] (.error (.cannotRead source error))
  | refused {compiler : Compiler LabelCounter} {source : Path} {later : List Path} {text : String}
      {failure : Failure} (reads : tree.read source = .ok text)
      (fails : (compiler.compile (unitName source) text).1 = .error failure) :
      Progress tree destination compiler (source :: later) []
        (.error (.cannotCompile source failure))
  | unwritten {compiler : Compiler LabelCounter} {source output : Path} {later : List Path}
      {text : String} {unit : CompiledUnit} {error : FileError}
      (reads : tree.read source = .ok text)
      (compiles : (compiler.compile (unitName source) text).1 = .ok unit)
      (isOutput : destination.output? source = some output)
      (fails : tree.write output unit.code.text = .error error) :
      Progress tree destination compiler (source :: later) [] (.error (.cannotWrite output error))
  | delivered {compiler next : Compiler LabelCounter} {source : Path} {later : List Path}
      {text : String} {unit : CompiledUnit} {deliveries : List Delivery}
      {result : Except RunError Unit} (reads : tree.read source = .ok text)
      (compiles : compiler.compile (unitName source) text = (.ok unit, next))
      (writes : ∀ output, destination.output? source = some output →
        ∃ after, tree.write output unit.code.text = .ok after)
      (others : Progress tree destination next later deliveries result) :
      Progress tree destination compiler (source :: later) (⟨source, text, unit⟩ :: deliveries) result

/-- The sources that are delivered are the first ones. -/
theorem Progress.split {compiler : Compiler LabelCounter} {sources : List Path}
    {deliveries : List Delivery} {result : Except RunError Unit}
    (progress : Progress tree destination compiler sources deliveries result) :
    sources = deliveries.map (·.source) ++ sources.drop deliveries.length := by
  induction progress with
  | delivered reads compiles writes others inductionHypothesis =>
      exact congrArg (List.cons _) inductionHypothesis
  | _ => rfl

/-- If no source fails, all of them are delivered. -/
theorem Progress.sources_eq {compiler : Compiler LabelCounter} {sources : List Path}
    {deliveries : List Delivery}
    (progress : Progress tree destination compiler sources deliveries (.ok ())) :
    sources = deliveries.map (·.source) := by
  generalize isResult : (.ok () : Except RunError Unit) = result at progress
  induction progress with
  | finished => rfl
  | delivered reads compiles writes others inductionHypothesis =>
      exact congrArg (List.cons _) (inductionHypothesis isResult)
  | _ => cases isResult

/-- The units that are delivered are those that a compiler makes of the texts in a row. -/
theorem Progress.compileAll {compiler : Compiler LabelCounter} {sources : List Path}
    {deliveries : List Delivery} {result : Except RunError Unit}
    (progress : Progress tree destination compiler sources deliveries result) :
    (compiler.compileAll (deliveries.map fun delivery =>
      (unitName delivery.source, delivery.text))).1 = deliveries.map fun delivery =>
        .ok delivery.unit := by
  induction progress with
  | delivered reads compiles writes others inductionHypothesis =>
      simp only [List.map_cons, Compiler.compileAll, compiles]
      exact congrArg (List.cons _) inductionHypothesis
  | _ => rfl

/-- Whatever is delivered was read and can be written. -/
theorem Progress.of_mem {compiler : Compiler LabelCounter} {sources : List Path}
    {deliveries : List Delivery} {result : Except RunError Unit}
    (progress : Progress tree destination compiler sources deliveries result) :
    ∀ delivery ∈ deliveries, tree.read delivery.source = .ok delivery.text ∧
      ∀ output, destination.output? delivery.source = some output →
        ∃ after, tree.write output delivery.unit.code.text = .ok after := by
  induction progress with
  | delivered reads compiles writes others inductionHypothesis =>
      exact List.forall_mem_cons.2 ⟨⟨reads, writes⟩, inductionHypothesis⟩
  | _ => exact List.forall_mem_nil _

/-- What is printed when sources are delivered. -/
def printedFor : Destination → List Delivery → String
  | .standardOutput, deliveries => String.join (deliveries.map (·.unit.code.text))
  | .besideSources, _ => ""
  | .directory _, _ => ""

/-- What has become of a world in which sources were delivered. -/
structure Delivered (destination : Destination) (before : World) (deliveries : List Delivery)
    (after : World) : Prop where
  workingDirectory : after.tree.workingDirectory = before.tree.workingDirectory
  sound : after.tree.Sound
  printed : after.printed = before.printed ++ printedFor destination deliveries
  /-- Each output holds the code of its source. -/
  written : ∀ delivery ∈ deliveries, destination ≠ .standardOutput →
    ∃ place, OutputPlace before.tree delivery.source destination place ∧
      ¬ before.tree.hasDirectory place ∧
      after.tree.entry? place = some (.file delivery.unit.code.text.toUTF8)
  /-- Nothing else is touched. -/
  kept : ∀ place, (∀ delivery ∈ deliveries,
      ¬ OutputPlace before.tree delivery.source destination place) →
    after.tree.entry? place = before.tree.entry? place

namespace Delivered

variable {before after : World} {deliveries : List Delivery}

/-- Where nothing is delivered, nothing changes. -/
theorem none (sound : before.tree.Sound) : Delivered destination before [] before where
  workingDirectory := rfl
  sound := sound
  printed := by cases destination <;> exact (String.append_empty).symm
  written := fun _ member => absurd member List.not_mem_nil
  kept := fun _ _ => rfl

/-- Outputs are files, and no directory goes where they are. -/
theorem hasDirectory_iff (delivered : Delivered destination before deliveries after)
    (place : Location) : after.tree.hasDirectory place ↔ before.tree.hasDirectory place := by
  by_cases isOutput : ∃ delivery ∈ deliveries,
      OutputPlace before.tree delivery.source destination place
  · obtain ⟨delivery, member, output⟩ := isOutput
    obtain ⟨written, same, other, found⟩ := delivered.written delivery member output.ne_standardOutput
    cases output.unique same
    constructor
    · intro isDirectory
      exact absurd (hasFile_iff.2 ⟨_, found⟩) (not_hasFile_of_hasDirectory isDirectory)
    · intro isDirectory
      exact absurd isDirectory other
  · have kept := delivered.kept place fun delivery member output =>
      isOutput ⟨delivery, member, output⟩
    rw [FileTree.hasDirectory_iff, FileTree.hasDirectory_iff, kept]

theorem extend (delivered : Delivered destination before deliveries after) :
    Extends before.tree after.tree :=
  ⟨delivered.workingDirectory, fun {place} => (delivered.hasDirectory_iff place).2⟩

/-- Sources keep their texts. -/
theorem read_eq (delivered : Delivered destination before deliveries after)
    (isFile : before.tree.isFile source) (isSource : isSource source) (sound : before.tree.Sound) :
    after.tree.read source = before.tree.read source := by
  obtain ⟨front, directory, stem, hasStem⟩ := exists_hasStem sound isFile isSource
  have leads := (hasStem.extend delivered.extend).leads
  apply read_congr
  · rw [leads, hasStem.leads]
  · intro place found
    rw [hasStem.leads] at found
    cases found
    exact delivered.kept _ fun delivery _ output => output.ne_source directory stem rfl

/-- The paths of outputs lead to what was delivered. -/
theorem exists_output (delivered : Delivered destination before deliveries after)
    (sound : before.tree.Sound) (ready : destination.IsReady before.tree) {delivery : Delivery}
    (member : delivery ∈ deliveries) (isFile : before.tree.isFile delivery.source)
    (isSource : isSource delivery.source) {output : Path} {written : FileTree}
    (isOutput : destination.output? delivery.source = some output)
    (writes : before.tree.write output delivery.unit.code.text = .ok written) :
    ∃ place, OutputPlace before.tree delivery.source destination place ∧
      after.tree.locate output = .ok place ∧
      after.tree.entry? place = some (.file delivery.unit.code.text.toUTF8) := by
  obtain ⟨front, directory, stem, hasStem⟩ := exists_hasStem sound isFile isSource
  obtain ⟨place, isPlace, -, leads⟩ := hasStem.exists_output_of_write sound ready isOutput writes
  obtain ⟨same, isSame, -, found⟩ :=
    delivered.written delivery member isPlace.ne_standardOutput
  cases isPlace.unique isSame
  exact ⟨place, isPlace, leads _ delivered.extend, found⟩

/-- One more source is delivered to its own place. -/
theorem put (delivered : Delivered destination before deliveries after) {delivery : Delivery}
    (apart : ∀ earlier ∈ deliveries,
      ¬ OutputPlace before.tree earlier.source destination place)
    (output : OutputPlace before.tree delivery.source destination place)
    (other : ¬ before.tree.hasDirectory place)
    (sound : (after.tree.put place (.file delivery.unit.code.text.toUTF8)).Sound) :
    Delivered destination before (deliveries ++ [delivery])
      { after with tree := after.tree.put place (.file delivery.unit.code.text.toUTF8) } where
  workingDirectory := by
    have still : ¬ after.tree.hasDirectory place := mt (delivered.hasDirectory_iff place).1 other
    exact (extends_put output.ne_nil still _).workingDirectory.trans delivered.workingDirectory
  sound := sound
  printed := by
    rw [delivered.printed]
    cases output <;> rfl
  written := by
    intro earlier member files
    rcases List.mem_append.1 member with old | new
    · obtain ⟨written, isOutput, free, found⟩ := delivered.written earlier old files
      refine ⟨written, isOutput, free, ?_⟩
      rw [entry?_put output.ne_nil, if_neg, found]
      rintro rfl
      exact apart earlier old isOutput
    · cases List.mem_singleton.1 new
      refine ⟨place, output, other, ?_⟩
      rw [entry?_put output.ne_nil, if_pos rfl]
  kept := by
    intro sought untouched
    obtain ⟨old, new⟩ := List.forall_mem_append.1 untouched
    rw [entry?_put output.ne_nil, if_neg]
    · exact delivered.kept sought old
    · rintro rfl
      exact new delivery (List.mem_singleton_self delivery) output

/-- What is printed leaves the tree alone. -/
theorem print (delivered : Delivered .standardOutput before deliveries after) (delivery : Delivery) :
    Delivered .standardOutput before (deliveries ++ [delivery])
      { after with printed := after.printed ++ delivery.unit.code.text } where
  workingDirectory := delivered.workingDirectory
  sound := delivered.sound
  printed := by
    rw [delivered.printed, printedFor, printedFor, List.map_append, String.join_append]
    simp [String.append_assoc]
  written := fun _ _ files => absurd rfl files
  kept := fun sought untouched => delivered.kept sought (List.forall_mem_append.1 untouched).1

end Delivered

/-! ## Runs -/

section

variable {world : World} {arrange : List String → List String}

theorem run_emit (source : Path) (code : Code) :
    (emit (World.platform arrange) destination source code).run world =
      match destination.output? source with
      | none => (.ok (), { world with printed := world.printed ++ code.text })
      | some output =>
          match world.tree.write output code.text with
          | .ok tree => (.ok (), { world with tree })
          | .error error => (.error (.cannotWrite output error), world) := by
  have writes : ∀ output, (writeCode (World.platform arrange) output code).run world =
      match world.tree.write output code.text with
      | .ok tree => (.ok (), { world with tree })
      | .error error => (.error (.cannotWrite output error), world) := by
    intro output
    have updates : ((World.platform arrange).write output code.text).run world = _ :=
      World.run_update (·.write output code.text) world
    rw [writeCode, StateT.run_bind, updates]
    cases world.tree.write output code.text <;> rfl
  cases destination with
  | besideSources => exact writes _
  | directory target => exact writes _
  | standardOutput => rfl

theorem run_compileSources_cons (compiler : Compiler LabelCounter) (source : Path)
    (sources : List Path) :
    (compileSources (World.platform arrange) destination compiler (source :: sources)).run world =
      match world.tree.read source with
      | .error error => (.error (.cannotRead source error), world)
      | .ok text =>
          match compiler.compile (unitName source) text with
          | (.error failure, _) => (.error (.cannotCompile source failure), world)
          | (.ok unit, next) =>
              match (emit (World.platform arrange) destination source unit.code).run world with
              | (.error error, after) => (.error error, after)
              | (.ok (), after) =>
                  (compileSources (World.platform arrange) destination next sources).run after := by
  have reads : ((World.platform arrange).read source).run world =
      (world.tree.read source, world) := rfl
  rw [compileSources, StateT.run_bind, reads]
  cases world.tree.read source with
  | error error => rfl
  | ok text =>
      show StateT.run (match compiler.compile (unitName source) text with
        | (.error failure, _) => _
        | (.ok unit, next) => _) world = _
      dsimp only
      generalize compiler.compile (unitName source) text = outcome
      obtain ⟨result, next⟩ := outcome
      cases result with
      | error failure => rfl
      | ok unit =>
          show StateT.run (emit _ _ _ _ >>= _) world = _
          rw [StateT.run_bind]
          dsimp only
          generalize (emit (World.platform arrange) destination source unit.code).run world = emission
          obtain ⟨result, after⟩ := emission
          cases result <;> rfl

/-- The code of a source is delivered, or cannot be written for a reason that was there before the
first source. -/
theorem emit_cases (arrange : List String → List String) {before : World}
    {deliveries : List Delivery} (delivery : Delivery)
    (delivered : Delivered destination before deliveries world) (sound : before.tree.Sound)
    (ready : destination.IsReady before.tree) (isFile : before.tree.isFile delivery.source)
    (isSource : isSource delivery.source)
    (apart : ∀ place, OutputPlace before.tree delivery.source destination place →
      ∀ earlier ∈ deliveries, ¬ OutputPlace before.tree earlier.source destination place) :
    (∃ after, (emit (World.platform arrange) destination delivery.source delivery.unit.code).run
          world = (.ok (), after) ∧
        (∀ output, destination.output? delivery.source = some output →
          ∃ tree, before.tree.write output delivery.unit.code.text = .ok tree) ∧
        Delivered destination before (deliveries ++ [delivery]) after) ∨
      ∃ output error,
        (emit (World.platform arrange) destination delivery.source delivery.unit.code).run
          world = (.error (.cannotWrite output error), world) ∧
        destination.output? delivery.source = some output ∧
        before.tree.write output delivery.unit.code.text = .error error := by
  rw [run_emit]
  cases isOutput : destination.output? delivery.source with
  | none =>
      cases destination with
      | standardOutput => exact .inl ⟨_, rfl, nofun, delivered.print delivery⟩
      | besideSources => cases isOutput
      | directory target => cases isOutput
  | some output =>
      obtain ⟨front, directory, stem, hasStem⟩ := exists_hasStem sound isFile isSource
      cases writes : before.tree.write output delivery.unit.code.text with
      | error error =>
          obtain ⟨goal, leads, -⟩ := hasStem.locate_output sound ready isOutput
          have fails : world.tree.write output delivery.unit.code.text = .error error := by
            apply (write_eq_error_congr _ delivered.hasDirectory_iff).2 writes
            rw [leads _ delivered.extend, leads _ (.refl before.tree)]
          exact .inr ⟨output, error, by simp only [fails], rfl, writes⟩
      | ok tree =>
          obtain ⟨goal, isPlace, other, leads⟩ :=
            hasStem.exists_output_of_write sound ready isOutput writes
          have succeeds : world.tree.write output delivery.unit.code.text =
              .ok (world.tree.put goal (.file delivery.unit.code.text.toUTF8)) :=
            write_eq_ok_iff.2
              ⟨goal, leads _ delivered.extend, mt (delivered.hasDirectory_iff goal).1 other, rfl⟩
          refine .inl ⟨_, by simp only [succeeds], ?_, delivered.put (apart goal isPlace) isPlace other
            (delivered.sound.write succeeds)⟩
          rintro _ ⟨⟩
          exact ⟨tree, writes⟩

/-- Sources are delivered in order, up to the first with which this fails. The first of them may
become a file when the directory for the output is made; the others are files before that. -/
theorem compileSources_delivers (arrange : List String → List String) {before : World}
    (sound : before.tree.Sound) (ready : destination.IsReady before.tree)
    {deliveries : List Delivery} (delivered : Delivered destination before deliveries world)
    (compiler : Compiler LabelCounter) {sources : List Path}
    (areSources : ∀ source ∈ sources, isSource source)
    (first : ∀ source ∈ sources.head?, world.tree.read source = before.tree.read source)
    (others : ∀ source ∈ sources.tail, before.tree.isFile source)
    (apart : (deliveries.map (·.source) ++ sources).Pairwise
      (OutputsApart before.tree destination)) :
    ∃ result more after,
      (compileSources (World.platform arrange) destination compiler sources).run world =
        (result, after) ∧
      Progress before.tree destination compiler sources more result ∧
      Delivered destination before (deliveries ++ more) after := by
  -- The deliveries and the compiler change with every source, so they are general.
  induction sources generalizing compiler deliveries world with
  | nil => exact ⟨.ok (), [], world, rfl, .finished, by rwa [List.append_nil]⟩
  | cons source sources inductionHypothesis =>
      have same := first source rfl
      rw [run_compileSources_cons, same]
      cases reads : before.tree.read source with
      | error error => exact ⟨_, [], world, rfl, .unread reads, by rwa [List.append_nil]⟩
      | ok text =>
          obtain ⟨isSource, areSources⟩ := List.forall_mem_cons.1 areSources
          dsimp only
          rcases compiled : compiler.compile (unitName source) text with ⟨outcome, next⟩
          cases outcome with
          | error failure =>
              refine ⟨_, [], world, rfl, .refused reads (congrArg Prod.fst compiled), ?_⟩
              rwa [List.append_nil]
          | ok unit =>
              obtain ⟨-, sourcesApart, outputsApart⟩ := List.pairwise_append.1 apart
              have isFirst : ∀ place, OutputPlace before.tree source destination place →
                  ∀ earlier ∈ deliveries,
                    ¬ OutputPlace before.tree earlier.source destination place :=
                fun place output earlier member ofEarlier => outputsApart earlier.source
                  (List.mem_map_of_mem member) source List.mem_cons_self place ofEarlier output
              rcases emit_cases arrange ⟨source, text, unit⟩ delivered
                  sound ready (isFile_of_read reads) isSource isFirst with
                ⟨after, emits, writes, delivered⟩ | ⟨output, error, emits, isOutput, fails⟩
              · simp only [emits]
                -- No output is where a source is, so the sources that are left are what they were.
                have nextReads : ∀ source ∈ sources.head?,
                    after.tree.read source = before.tree.read source := by
                  intro later member
                  have isLater := List.mem_of_mem_head? member
                  exact delivered.read_eq (others later isLater) (areSources later isLater) sound
                have files : ∀ source ∈ sources.tail, before.tree.isFile source :=
                  fun later member => others later (List.mem_of_mem_tail member)
                obtain ⟨result, more, last, runs, progress, delivered⟩ := inductionHypothesis
                  delivered next areSources nextReads files (by simpa using apart)
                refine ⟨result, _ :: more, last, runs,
                  .delivered reads compiled writes progress, ?_⟩
                rwa [List.append_assoc] at delivered
              · simp only [emits]
                refine ⟨_, [], world, rfl,
                  .unwritten reads (congrArg Prod.fst compiled) isOutput fails, ?_⟩
                rwa [List.append_nil]

end

end JackCompiler
