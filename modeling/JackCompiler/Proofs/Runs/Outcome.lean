import JackCompiler.Proofs.Runs.Collection
import JackCompiler.Proofs.Runs.Delivery

/-!
# Outcomes of runs

A run of the command line is told by its sources, by the tree that they are read from once the
directory for the output is there, and by how far they fare in it. Main statement: in every sound file
tree a run has one outcome, which the order in which directories are listed does not change.
-/

namespace JackCompiler

open FileTree

variable {tree ready : FileTree} {path source : Path} {destination : Destination} {place : Location}
  {sources : List Path} {before world : World}

/-! ## The sources of one run -/

namespace Collected

/-- What is collected are sources. -/
theorem isSource (collected : Collected tree path sources) (sound : tree.Sound) :
    ∀ source ∈ sources, isSource source := by
  cases collected with
  | file other source => exact List.forall_mem_singleton.2 source
  | directory leads isDirectory some ordered complete =>
      intro source member
      obtain ⟨name, listed, rfl⟩ := List.mem_map.1 member
      have named := (complete name).1 listed
      rw [isSource_join (named.isName sound)]
      exact named.extension

/-- All sources but the first are files, also when more directories are made. -/
theorem isFile (collected : Collected tree path sources) (sound : tree.Sound) {paths : List Path}
    (makes : tree.MakesDirectories paths ready) : ∀ source ∈ sources.tail, ready.isFile source := by
  cases collected with
  | file other source => exact List.forall_mem_nil _
  | directory leads isDirectory some ordered complete =>
      intro source member
      obtain ⟨name, isName, rfl⟩ := List.mem_map.1 (List.mem_of_mem_tail member)
      have named := (complete name).1 isName
      obtain ⟨content, found⟩ := hasFile_iff.1 named.file
      exact isFile_iff.2
        ⟨_, makes.extend.locate (named.leads sound leads isDirectory),
          hasFile_iff.2 ⟨content, makes.file_iff.2 found⟩⟩

/-- The sources of a run have outputs at different places. -/
theorem apart (collected : Collected tree path sources) (sound : tree.Sound)
    (extend : Extends tree ready) (destination : Destination) :
    sources.Pairwise (OutputsApart ready destination) := by
  cases collected with
  | file other source => exact List.pairwise_singleton _ _
  | @directory directory names leads isDirectory some ordered complete =>
      apply List.pairwise_map.2
      apply ordered.imp_of_mem
      intro left right ofLeft ofRight below place leftOutput rightOutput
      obtain ⟨first, second, stem, leftLeads, rightLeads⟩ := leftOutput.exists_stem rightOutput
      have leftNamed := (complete left).1 ofLeft
      have rightNamed := (complete right).1 ofRight
      rw [extend.locate (leftNamed.leads sound leads isDirectory)] at leftLeads
      rw [extend.locate (rightNamed.leads sound leads isDirectory)] at rightLeads
      have leftName := (List.append_singleton_inj.1 (Except.ok.inj leftLeads)).2
      have rightName := (List.append_singleton_inj.1 (Except.ok.inj rightLeads)).2
      rw [leftName, rightName] at below
      exact List.lt_irrefl _ below

end Collected

/-! ## The directory for the output -/

/-- How a world is prepared for the output: the directory for it is made. -/
inductive Prepared : Destination → World → World → Prop
  | directory {before after : World} {target : Path}
      (makes : World.MakesDirectories target.ancestors before after)
      (isDirectory : after.tree.isDirectory target) : Prepared (.directory target) before after
  | besideSources {world : World} : Prepared .besideSources world world
  | standardOutput {world : World} : Prepared .standardOutput world world

namespace Prepared

variable {after : World}

/-- What is prepared is ready for output. -/
theorem isReady (prepared : Prepared destination before after) :
    destination.IsReady after.tree := by
  cases prepared with
  | directory makes isDirectory =>
      rintro _ ⟨⟩
      exact isDirectory
  | besideSources => exact nofun
  | standardOutput => exact nofun

/-- Preparing makes directories and does nothing else. -/
theorem makes (prepared : Prepared destination before after) (sound : before.tree.Sound) :
    ∃ paths, World.MakesDirectories paths before after := by
  cases prepared with
  | directory makes isDirectory => exact ⟨_, makes⟩
  | besideSources => exact ⟨[], .refl [] sound⟩
  | standardOutput => exact ⟨[], .refl [] sound⟩

end Prepared

/-! ## Runs -/

/-- What a run comes to. -/
inductive Outcome (options : Options) (before : World) : Except RunError Unit → World → Prop
  /-- Without sources nothing is done. -/
  | uncollected {error : RunError} (uncollected : Uncollected before.tree options.path error) :
      Outcome options before (.error error) before
  /-- If the directory for the output or one above it cannot be made, others of them may have been. -/
  | unprepared {sources : List Path} {target : Path} {error : FileError} {after : World}
      (collected : Collected before.tree options.path sources)
      (isTarget : options.destination = .directory target)
      (makes : World.MakesDirectories target.ancestors before after)
      (refused : after.RefusesDirectory target.ancestors error) :
      Outcome options before (.error (.cannotCreate target error)) after
  /-- The sources are delivered up to the first with which this fails. The outputs of the others hold
  what they held before. -/
  | processed {sources : List Path} {ready after : World} {deliveries : List Delivery}
      {result : Except RunError Unit} (collected : Collected before.tree options.path sources)
      (prepared : Prepared options.destination before ready)
      (progress : Progress ready.tree options.destination .fresh sources deliveries result)
      (delivered : Delivered options.destination ready deliveries after)
      (others : ∀ source ∈ sources.drop deliveries.length, ∀ place,
        OutputPlace ready.tree source options.destination place → ∀ content,
          after.tree.entry? place = some (.file content) ↔
            before.tree.entry? place = some (.file content)) :
      Outcome options before result after

section

variable {arrange : List String → List String}

/-- Preparing makes the directory for the output, if there is to be one. -/
theorem run_prepare (destination : Destination) :
    (prepare (World.platform arrange) destination).run world =
      match destination with
      | .directory target =>
          match ((World.platform arrange).createDirectories target).run world with
          | (result, after) => (result.mapError (.cannotCreate target), after)
      | .besideSources => (.ok (), world)
      | .standardOutput => (.ok (), world) := by
  cases destination <;> rfl

/-- A run collects its sources, prepares for output, and processes one source after another. -/
theorem run_run (options : Options) :
    (run (World.platform arrange) options).run world =
      match (collectSources (World.platform arrange) options.path).run world with
      | (.error error, after) => (.error error, after)
      | (.ok sources, after) =>
          match (prepare (World.platform arrange) options.destination).run after with
          | (.error error, after) => (.error error, after)
          | (.ok (), after) =>
              (compileSources (World.platform arrange) options.destination .fresh sources).run
                after := by
  rw [run, StateT.run_bind]
  generalize (collectSources (World.platform arrange) options.path).run world = collection
  obtain ⟨result, after⟩ := collection
  cases result with
  | error error => rfl
  | ok sources =>
      show StateT.run (prepare _ _ >>= _) after = _
      rw [StateT.run_bind]
      dsimp only
      generalize (prepare (World.platform arrange) options.destination).run after = preparation
      obtain ⟨result, after⟩ := preparation
      cases result <;> rfl

/-- Only the listing of directories hangs on the order in which names come. -/
theorem compileSources_arrange (arrange other : List String → List String)
    (compiler : Compiler LabelCounter) (sources : List Path) :
    compileSources (World.platform arrange) destination compiler sources =
      compileSources (World.platform other) destination compiler sources := by
  induction sources generalizing compiler with
  | nil => rfl
  | cons source sources inductionHypothesis =>
      simp only [compileSources, inductionHypothesis]
      cases destination <;> rfl

/-- How a run goes on when its sources are collected. -/
theorem processed_outcome (arrange : List String → List String) (sound : before.tree.Sound)
    (options : Options)
    (collected : Collected before.tree options.path sources)
    (prepared : Prepared options.destination before world) :
    ∃ result after,
      (compileSources (World.platform arrange) options.destination .fresh sources).run world =
        (result, after) ∧ Outcome options before result after := by
  obtain ⟨paths, makes⟩ := prepared.makes sound
  have first : ∀ source ∈ sources.head?, world.tree.read source = world.tree.read source :=
    fun _ _ => rfl
  have apart := collected.apart sound makes.tree.extend options.destination
  obtain ⟨result, deliveries, after, runs, progress, delivered⟩ :=
    compileSources_delivers arrange makes.sound prepared.isReady (.none makes.sound) .fresh
      (collected.isSource sound) first (collected.isFile sound makes.tree) apart
  rw [List.nil_append] at delivered
  refine ⟨result, after, runs, .processed collected prepared progress delivered ?_⟩
  intro source undelivered place output content
  rw [← makes.tree.file_iff, delivered.kept place]
  intro delivery member earlier
  rw [progress.split] at apart
  exact (List.pairwise_append.1 apart).2.2 delivery.source (List.mem_map_of_mem member) source
    undelivered place earlier output

/-- A run goes on from its sources to the directory for the output, and from there to the outputs. -/
theorem proceeds_outcome (sound : before.tree.Sound) (options : Options)
    (collected : Collected before.tree options.path sources) :
    ∃ result after, (∀ arrange,
        (match (prepare (World.platform arrange) options.destination).run before with
          | (.error error, after) => (.error error, after)
          | (.ok (), after) =>
              (compileSources (World.platform arrange) options.destination .fresh sources).run
                after) = (result, after)) ∧ Outcome options before result after := by
  -- From here on nothing is listed, so one order stands for all.
  have onward : ∀ {ready : World}, Prepared options.destination before ready →
      ∃ result after, (∀ arrange,
        (compileSources (World.platform arrange) options.destination .fresh sources).run ready =
          (result, after)) ∧ Outcome options before result after := by
    intro ready prepared
    obtain ⟨result, after, runs, outcome⟩ :=
      processed_outcome id sound options collected prepared
    refine ⟨result, after, fun arrange => ?_, outcome⟩
    rw [compileSources_arrange arrange id, runs]
  simp only [run_prepare]
  cases isDestination : options.destination with
  | besideSources =>
      rw [isDestination] at onward
      exact onward .besideSources
  | standardOutput =>
      rw [isDestination] at onward
      exact onward .standardOutput
  | directory target =>
      rw [isDestination] at onward
      obtain ⟨result, ready, runs, makes, leads⟩ :=
        World.createDirectories_makes id sound target
      cases result with
      | ok =>
          obtain ⟨result, after, proceeds, outcome⟩ := onward (.directory makes leads)
          refine ⟨result, after, fun arrange => ?_, outcome⟩
          dsimp only
          rw [World.createDirectories_arrange arrange id, runs]
          exact proceeds arrange
      | error error =>
          refine ⟨.error (.cannotCreate target error), ready, fun arrange => ?_,
            .unprepared collected isDestination makes leads⟩
          dsimp only
          rw [World.createDirectories_arrange arrange id, runs]
          rfl

/-- A run on a sound file tree has one outcome in whatever order directories are listed: its sources
are the path, or the source files in the directory in the order of the bytes of their names; with one
sequence of labels for all of them they are delivered, up to the first that cannot be read, compiled
or written; and nothing else changes but for the directories that are made for the output, which are
not made if there are no sources. -/
theorem run_outcome (sound : world.tree.Sound) (options : Options) :
    ∃ result after, (∀ arrange : List String → List String,
        (∀ names, (arrange names).Perm names) →
          (run (World.platform arrange) options).run world = (result, after)) ∧
      Outcome options world result after := by
  obtain ⟨collection, collects, isCollection⟩ := run_collectSources_spec sound options.path
  cases collection with
  | error error =>
      refine ⟨.error error, world, fun arrange arranged => ?_, .uncollected isCollection⟩
      rw [run_run, collects arrange arranged]
  | ok sources =>
      obtain ⟨result, after, proceeds, outcome⟩ := proceeds_outcome sound options isCollection
      refine ⟨result, after, fun arrange arranged => ?_, outcome⟩
      rw [run_run, collects arrange arranged]
      exact proceeds arrange

end

/-- A directory with four sources of which the third is no class, and an old output of the fourth. -/
def brokenProgram : World where
  tree := {
    entries := [(["p"], .directory), (["p", "D.jack"], .file "class D{}".toUTF8),
      (["p", "D.vm"], .file "old".toUTF8), (["p", "C.jack"], .file "class".toUTF8),
      (["p", "B.jack"], .file "class B{function int f(){if(1){}return 1;}}".toUTF8),
      (["p", "A.jack"], .file "class A{function int f(){if(1){}return 1;}}".toUTF8)]
    workingDirectory := [] }

/-- The run stops at the third source: the two before it are compiled, and the old output of the one
behind it is as it was. -/
theorem run_outcome_of_broken_program :
    brokenProgram.tree.Sound ∧ ∃ result after,
      (∀ arrange : List String → List String, (∀ names, (arrange names).Perm names) →
        (run (World.platform arrange) ⟨⟨"p"⟩, .besideSources⟩).run brokenProgram =
          (result, after)) ∧
      Outcome ⟨⟨"p"⟩, .besideSources⟩ brokenProgram result after ∧
      result = .error (.cannotCompile ⟨"p/C.jack"⟩
        (.error ⟨"C.jack", ⟨1, 6⟩, .grammatical .unexpectedEnd⟩)) ∧
      after.tree.read ⟨"p/B.vm"⟩ = .ok ("function B.f 0\npush constant 1\nnot\nif-goto LBL_2\n" ++
        "goto LBL_3\nlabel LBL_2\nlabel LBL_3\npush constant 1\nreturn\n") ∧
      after.tree.read ⟨"p/D.vm"⟩ = .ok "old" := by
  have sound : brokenProgram.tree.Sound := by decide
  obtain ⟨result, after, runs, outcome⟩ := run_outcome sound ⟨⟨"p"⟩, .besideSources⟩
  have sorted : sortedNames ["D.jack", "D.vm", "C.jack", "B.jack", "A.jack"] =
      ["A.jack", "B.jack", "C.jack", "D.jack", "D.vm"] := by
    simp [sortedNames, List.mergeSort]
  have listed : brokenProgram.tree.list ⟨"p"⟩ =
      .ok ["D.jack", "D.vm", "C.jack", "B.jack", "A.jack"] := by decide +kernel
  have collects : (collectSources (World.platform id) ⟨"p"⟩).run brokenProgram =
      (.ok [⟨"p/A.jack"⟩, ⟨"p/B.jack"⟩, ⟨"p/C.jack"⟩, ⟨"p/D.jack"⟩], brokenProgram) := by
    rw [run_collectSources, if_pos (by decide), listed]
    simp only [id, sorted]
    rfl
  have same := runs id fun names => .refl names
  rw [run_run, collects] at same
  have ofResult : result = _ := (congrArg Prod.fst same).symm
  have ofWorld : after = _ := (congrArg Prod.snd same).symm
  refine ⟨sound, result, after, runs, outcome, ?_⟩
  rw [ofResult, ofWorld]
  decide +kernel

end JackCompiler
