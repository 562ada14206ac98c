import JackCompiler.Proofs.Runs.Outcome

/-!
# No output is lost

The outputs of a run lie at different places, and none of them where a source lies. So when a run
that writes files succeeds, each output holds the code of its own source, and the sources are what
they were.
-/

namespace JackCompiler

open FileTree

/-- What became of a run that wrote files and succeeded. -/
structure Lossless (options : Options) (before after : World) (deliveries : List Delivery) :
    Prop where
  /-- The sources are those of the run, and all of them were delivered. -/
  collected : Collected before.tree options.path (deliveries.map (·.source))
  /-- The units are made of the texts of the sources, with one sequence of labels. -/
  compiled : (Compiler.fresh.compileAll (deliveries.map fun delivery =>
    (unitName delivery.source, delivery.text))).1 = deliveries.map fun delivery => .ok delivery.unit
  /-- The paths of the outputs are different. -/
  distinct : (deliveries.map fun delivery => options.destination.output? delivery.source).Nodup
  /-- They lead to different places. -/
  apart : (deliveries.map fun delivery =>
    (options.destination.output? delivery.source).map after.tree.locate).Nodup
  /-- Each output holds the code of its own source. -/
  holds : ∀ delivery ∈ deliveries, ∃ output,
    options.destination.output? delivery.source = some output ∧
      after.tree.read output = .ok delivery.unit.code.text
  /-- No output is a source, nor is it where a source is. -/
  other : ∀ delivery ∈ deliveries, ∀ output,
    options.destination.output? delivery.source = some output →
      ∀ source ∈ deliveries.map (·.source),
        output ≠ source ∧ after.tree.locate output ≠ after.tree.locate source
  /-- Each source is the file that it was. -/
  unchanged : ∀ delivery ∈ deliveries, after.tree.read delivery.source = .ok delivery.text ∧
    ∃ place content, after.tree.locate delivery.source = .ok place ∧
      before.tree.entry? place = some (.file content) ∧
      after.tree.entry? place = some (.file content)

section

variable {options : Options} {before ready after : World} {deliveries : List Delivery}
  {delivery : Delivery} (sound : before.tree.Sound)
  (collected : Collected before.tree options.path (deliveries.map (·.source)))
  (prepared : Prepared options.destination before ready)
  (progress : Progress ready.tree options.destination .fresh (deliveries.map (·.source)) deliveries
    (.ok ()))
  (delivered : Delivered options.destination ready deliveries after)

include sound collected prepared progress delivered

/-- The path of each output leads to the place of the output, and its code is there. -/
private theorem exists_outputPlace (files : options.destination ≠ .standardOutput)
    (member : delivery ∈ deliveries) :
    ∃ output place, options.destination.output? delivery.source = some output ∧
      OutputPlace ready.tree delivery.source options.destination place ∧
      after.tree.locate output = .ok place ∧
      after.tree.entry? place = some (.file delivery.unit.code.text.toUTF8) := by
  obtain ⟨paths, makes⟩ := prepared.makes sound
  obtain ⟨reads, writes⟩ := progress.of_mem delivery member
  have isSource := collected.isSource sound delivery.source (List.mem_map_of_mem member)
  obtain ⟨output, isOutput⟩ := options.destination.exists_output? files delivery.source
  obtain ⟨written, writes⟩ := writes output isOutput
  obtain ⟨place, isPlace, leads, found⟩ := delivered.exists_output makes.sound prepared.isReady
    member (isFile_of_read reads) isSource isOutput writes
  exact ⟨output, place, isOutput, isPlace, leads, found⟩

/-- The path of each source leads to the place of the source, and the source is still there. -/
private theorem exists_sourcePlace (member : delivery ∈ deliveries) :
    ∃ directory stem content,
      after.tree.locate delivery.source = .ok (directory ++ [stem ++ "." ++ sourceExtension]) ∧
      before.tree.entry? (directory ++ [stem ++ "." ++ sourceExtension]) =
        some (.file content) ∧
      after.tree.entry? (directory ++ [stem ++ "." ++ sourceExtension]) = some (.file content) := by
  obtain ⟨paths, makes⟩ := prepared.makes sound
  obtain ⟨reads, -⟩ := progress.of_mem delivery member
  have isSource := collected.isSource sound delivery.source (List.mem_map_of_mem member)
  have isFile := isFile_of_read reads
  obtain ⟨front, directory, stem, hasStem⟩ := exists_hasStem makes.sound isFile isSource
  obtain ⟨place, leads, file⟩ := isFile_iff.1 isFile
  cases hasStem.leads.symm.trans leads
  obtain ⟨content, found⟩ := hasFile_iff.1 file
  refine ⟨directory, stem, content, (hasStem.extend delivered.extend).leads,
    makes.tree.file_iff.1 found, ?_⟩
  rw [delivered.kept _ fun _ _ output => output.ne_source directory stem rfl, found]

/-- What is delivered in full is lossless. -/
private theorem lossless_of_delivered (files : options.destination ≠ .standardOutput) :
    Lossless options before after deliveries := by
  obtain ⟨paths, makes⟩ := prepared.makes sound
  have outputs := fun {delivery} (member : delivery ∈ deliveries) =>
    exists_outputPlace sound collected prepared progress delivered files member
  have sources := fun {delivery} (member : delivery ∈ deliveries) =>
    exists_sourcePlace sound collected prepared progress delivered member
  -- Paths of outputs lead to their places, and these are different.
  have apart : (deliveries.map fun delivery =>
      (options.destination.output? delivery.source).map after.tree.locate).Nodup := by
    have separate := List.pairwise_map.1
      (collected.apart sound makes.tree.extend options.destination)
    apply List.pairwise_map.2
    apply separate.imp_of_mem
    intro left right ofLeft ofRight places same
    obtain ⟨first, place, isFirst, isPlace, leads, -⟩ := outputs ofLeft
    obtain ⟨second, other, isSecond, isOther, leadsToo, -⟩ := outputs ofRight
    rw [isFirst, isSecond, Option.map_some, Option.map_some, leads, leadsToo] at same
    cases same
    exact places place isPlace isOther
  refine ⟨collected, progress.compileAll, ?_, apart, ?_, ?_, ?_⟩
  · apply List.Nodup.of_map (Option.map after.tree.locate)
    rw [List.map_map]
    exact apart
  · intro delivery member
    obtain ⟨output, place, isOutput, -, leads, found⟩ := outputs member
    exact ⟨output, isOutput, read_of_written leads found⟩
  · intro delivery member output isOutput source isSource
    obtain ⟨other, ofOther, rfl⟩ := List.mem_map.1 isSource
    obtain ⟨path, place, isPath, isPlace, leads, -⟩ := outputs member
    obtain ⟨directory, stem, content, leadsThere, -⟩ := sources ofOther
    cases isOutput.symm.trans isPath
    have different : after.tree.locate output ≠ after.tree.locate other.source := by
      rw [leads, leadsThere]
      intro same
      exact isPlace.ne_source directory stem (Except.ok.inj same)
    exact ⟨fun same => different (congrArg after.tree.locate same), different⟩
  · intro delivery member
    obtain ⟨directory, stem, content, leads, was, remains⟩ := sources member
    obtain ⟨reads, -⟩ := progress.of_mem delivery member
    refine ⟨?_, _, content, leads, was, remains⟩
    rw [delivered.read_eq (isFile_of_read reads)
      (collected.isSource sound _ (List.mem_map_of_mem member)) makes.sound, reads]

end

/-- A run that writes files and succeeds loses no output and overwrites no source, whatever the names
of the sources are and wherever the outputs go. -/
theorem run_lossless {world after : World} {options : Options} {arrange : List String → List String}
    (sound : world.tree.Sound) (arranged : ∀ names, (arrange names).Perm names)
    (files : options.destination ≠ .standardOutput)
    (succeeds : (run (World.platform arrange) options).run world = (.ok (), after)) :
    ∃ deliveries, Lossless options world after deliveries := by
  obtain ⟨collection, collects, isCollection⟩ := run_collectSources_spec sound options.path
  rw [run_run, collects arrange arranged] at succeeds
  cases collection with
  | error error => cases succeeds
  | ok sources =>
      obtain ⟨result, last, proceeds, outcome⟩ := proceeds_outcome sound options isCollection
      cases (proceeds arrange).symm.trans succeeds
      generalize isResult : (.ok () : Except RunError Unit) = result at outcome
      cases outcome with
      | uncollected => cases isResult
      | unprepared => cases isResult
      | processed collected prepared progress delivered others =>
          subst isResult
          have all := progress.sources_eq
          subst all
          exact ⟨_, lossless_of_delivered sound collected prepared progress delivered files⟩

/-- A directory with three sources whose names are told apart by dots. -/
def dottedProgram : World where
  tree := {
    entries := [(["p"], .directory), (["p", "a.jack"], .file "class A{}".toUTF8),
      (["p", ".a.jack"], .file "class B{}".toUTF8),
      (["p", "a.b.jack"], .file "class C{function int f(){if(1){}return 1;}}".toUTF8)]
    workingDirectory := [] }

/-- Whatever the order of the names, each of the three sources has an output of its own. -/
theorem run_lossless_of_dotted_names :
    dottedProgram.tree.Sound ∧ (∀ names : List String, names.reverse.Perm names) ∧
      ∃ after, (run (World.platform List.reverse) ⟨⟨"p"⟩, .directory ⟨"p/"⟩⟩).run dottedProgram =
          (.ok (), after) ∧
        ∃ deliveries, Lossless ⟨⟨"p"⟩, .directory ⟨"p/"⟩⟩ dottedProgram after deliveries := by
  have sound : dottedProgram.tree.Sound := by decide
  have sorted : sortedNames ["a.b.jack", ".a.jack", "a.jack"] =
      [".a.jack", "a.b.jack", "a.jack"] := by
    simp [sortedNames, List.mergeSort]
  have listed : dottedProgram.tree.list ⟨"p"⟩ = .ok ["a.jack", ".a.jack", "a.b.jack"] := by
    decide +kernel
  have collects : (collectSources (World.platform List.reverse) ⟨"p"⟩).run dottedProgram =
      (.ok [⟨"p/.a.jack"⟩, ⟨"p/a.b.jack"⟩, ⟨"p/a.jack"⟩], dottedProgram) := by
    rw [run_collectSources, if_pos (by decide), listed]
    have reversed : ["a.jack", ".a.jack", "a.b.jack"].reverse =
        ["a.b.jack", ".a.jack", "a.jack"] := rfl
    simp only [reversed, sorted]
    rfl
  obtain ⟨after, succeeds⟩ : ∃ after, (run (World.platform List.reverse)
      ⟨⟨"p"⟩, .directory ⟨"p/"⟩⟩).run dottedProgram = (.ok (), after) := by
    refine ⟨_, Prod.ext ?_ rfl⟩
    rw [run_run, collects]
    decide +kernel
  exact ⟨sound, List.reverse_perm, after, succeeds,
    run_lossless sound List.reverse_perm (by decide) succeeds⟩

end JackCompiler
