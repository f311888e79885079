import Mathlib
import ModuleTree.Proofs.FileSystem.Numbered
import ModuleTree.Proofs.Run.Content
import ModuleTree.Proofs.Run.SequentialSchedule
/- What a run that ends well has delivered: one module for each job, asked for once, and its
   code in the output of the job. -/
namespace ModuleTree

variable {σ : Type}

def Call.isCompile : Call → Bool
  | .compile _ => true
  | _ => false

theorem rank_eq_of_isCompile {c : Call} (h : c.isCompile) : c.rank = 4 := by
  cases c with
  | compile request => rfl
  | _ => cases h

/-- A regular file by its own path, no link, with these bytes in it. -/
def FileSystem.Contains (fs : FileSystem) (p : Path) (bytes : ByteArray) : Prop :=
  ∃ id, fs.resolveLink p = .ok id ∧ fs.node? id = some (.file bytes)

def Task.CompiledOnce (settings : Settings) (t : Task) (source : String) (module : Compiled) :
    Prop :=
  t.transcript.filter (·.call.isCompile) =
    [⟨.compile ⟨source, t.job.moduleName, settings⟩, .ok module⟩]

section Once

variable {settings : Settings} {job : Job} {t : Transcript}

theorem compiled_at_most_once (regular : Regular settings job t) :
    t.countP (·.call.isCompile) ≤ 1 := by
  calc t.countP (·.call.isCompile)
      ≤ t.countP (fun y => y.call.rank = 4) := by
        refine List.countP_mono_left fun y _ compiles => ?_
        exact decide_eq_true (rank_eq_of_isCompile compiles)
    _ ≤ 1 := ranked_once regular (by decide)

theorem compiled_once (regular : Regular settings job t) {x : Exchange} (mem : x ∈ t)
    (compiles : x.call.isCompile) : t.filter (·.call.isCompile) = [x] := by
  have there : x ∈ t.filter (·.call.isCompile) := List.mem_filter.mpr ⟨mem, compiles⟩
  have once := compiled_at_most_once regular
  rw [List.countP_eq_length_filter] at once
  obtain ⟨y, only⟩ := List.length_eq_one_iff.mp
    (Nat.le_antisymm once (List.length_pos_of_mem there))
  rw [only, List.mem_singleton] at there
  rw [only, there]

end Once

theorem Task.compiledOnce {settings : Settings} {t : Task} {module : Compiled}
    (orderly : t.Orderly settings) (written : t.Written module) :
    ∃ source file bytes, t.CompiledOnce settings source module ∧
      ⟨.readFile file, .ok bytes⟩ ∈ t.transcript ∧ String.fromUTF8? bytes = some source := by
  have mem : module ∈ t.modules := by simp [written.1]
  obtain ⟨request, there⟩ := asked_of_module mem
  obtain ⟨name, same, file, bytes, read, text⟩ := grounds_of_regular orderly.regular _ there
  obtain ⟨source, moduleName, settings⟩ := request
  cases name
  cases same
  exact ⟨source, file, bytes, compiled_once orderly.regular there rfl, read, text⟩

theorem deposit_of_wrote {t : Transcript} {p : Path} {bytes : ByteArray} (h : Wrote t p bytes) :
    deposit t = bytes := by
  obtain ⟨file, _, written⟩ := h
  simp [deposit, written]

namespace Setup
open Run

variable {m : Setup σ} {jobs : List Job} {start : σ} {s : Run σ} {files : σ → FileSystem}
  {roots : List Path} {summary : Summary}

theorem spared_of_sited {job : Job} {fs : FileSystem} (sited : job.Sited fs m.destination)
    (other : ¬(m.settings.graph ∧ job.output = graphPath m.destination)) : m.Spared s job := by
  cases graph : m.settings.graph with
  | false => exact .inr (.inl graph)
  | true =>
    refine .inr (.inr fun same => other ⟨graph, ?_⟩)
    exact sited.eq_graphPath same

theorem contains_of_written (houses : m.environment.Houses files)
    (reach : m.Reachable jobs start s) (stored : Stored m files s) {t : Task} {module : Compiled}
    (mem : t ∈ s.tasks) (lies : m.destination.Lies t.job.output) (written : t.Written module)
    (spared : m.Spared s t.job) :
    (files s.surroundings).Contains t.job.output module.code.toUTF8 := by
  obtain ⟨file, created, _⟩ := written.2
  have record : (t.job, t.transcript) ∈ s.records := List.mem_map_of_mem mem
  have turns : Turns t.transcript := turns_of_regular (regular_of_reachable reach _ record)
  have holds := stored.holds _ record spared file created (turns.unspoiled_of_wrote written.2)
  have placed := (placed_of_reachable houses reach).1 _ record _ created
  rw [deposit_of_wrote written.2] at holds
  have linkFree := stored.ready.receives.linkFree _ .refl
  exact ⟨file, (FileSystem.resolveLink_iff linkFree lies).mpr placed, holds⟩

theorem uncompiled_of_flushGrounded {t : Transcript}
    (grounded : FlushGrounded m.settings m.destination t) :
    ∀ x ∈ t, x.call.isCompile = false := by
  intro x mem
  have grounds := grounded x mem
  cases call : x.call with
  | compile request =>
    rw [call] at grounds
    cases grounds
  | _ => rfl

theorem delivered_of_ok (reach : m.Reachable jobs start s)
    (returned : s.result? = some (.ok summary)) {t : Task} (mem : t ∈ s.tasks) :
    ∃ source file bytes module, t.CompiledOnce m.settings source module ∧
      ⟨.readFile file, .ok bytes⟩ ∈ t.transcript ∧ String.fromUTF8? bytes = some source ∧
        t.Written module := by
  have valid := valid_of_reachable reach
  obtain ⟨a, counted, none, _⟩ := ends_well valid returned
  obtain ⟨module, finished⟩ := (drained valid counted none).2 t mem
  have written := written_of_finished finished
  obtain ⟨source, file, bytes, asked, read, text⟩ :=
    Task.compiledOnce (orderly_of_reachable reach t mem) written
  exact ⟨source, file, bytes, module, asked, read, text, written⟩

/-- A run that returns well has asked for one module for each discovered job and nothing else,
and every output is a regular file with the code of its module; only the graph may have come in
its place. The destination is missing or holds only directories and files, also when the
directories of its own path have been made. -/
theorem outputs_of_ok (houses : m.environment.Houses files) (sound : (files start).Sound)
    (once : (files start).NoHardLinks) (receives : (files start).Receives m.destination)
    (found : Discovery.jobs (files start) roots m.destination m.settings = .ok jobs)
    (reach : m.Reachable jobs start s) (returned : s.result? = some (.ok summary)) :
    summary.files = jobs.length ∧ s.tasks.map Task.job = jobs ∧
      (∀ x ∈ s.minutes, x.call.isCompile = false) ∧
      ∀ t ∈ s.tasks, ∃ source module, t.CompiledOnce m.settings source module ∧
        (¬(m.settings.graph ∧ t.job.output = graphPath m.destination) →
          (files s.surroundings).Contains t.job.output module.code.toUTF8) := by
  have valid := valid_of_reachable reach
  have stored : Stored m files s :=
    stored_of_reachable houses ⟨sound.tree once, receives⟩ (spread_of_discovered sound found) reach
  obtain ⟨_, _, _, _, _, _, same⟩ := ends_well valid returned
  have minutes := uncompiled_of_flushGrounded (minuted_of_reachable reach).minutes
  refine ⟨?_, valid.jobs, minutes, fun t mem => ?_⟩
  · rw [same, ← valid.jobs, List.length_map]
  · obtain ⟨source, _, _, module, asked, _, _, written⟩ := delivered_of_ok reach returned mem
    have job : t.job ∈ jobs := valid.jobs ▸ List.mem_map_of_mem mem
    have sited := (Discovery.jobs_ok sound found).1 _ job
    refine ⟨source, module, asked, fun other => ?_⟩
    exact contains_of_written houses reach stored mem sited.lies written
      (spared_of_sited sited other)

end Setup

section Sample

/-- Files with a compiler that leaves each source as it is. -/
def World.leaving (files : FileSystem) : World where
  files := files
  compiler := ⟨fun _ => [], fun request => .ok ⟨request.source, []⟩⟩

def Environment.leaving : Environment FileSystem := fun call files =>
  ((World.answer call (.leaving files)).1, (World.answer call (.leaving files)).2.files)

theorem Environment.leaving_houses : Environment.leaving.Houses id :=
  fun call files => World.answer_houses call (.leaving files)

theorem Environment.leaving_willing : Environment.leaving.Willing id :=
  fun call files => World.answer_willing call (.leaving files)

/-- The same, but no write takes more bytes than these: of a longer one they are left behind, and
the write fails. -/
def Environment.cramped (room : Nat) (answer : Environment FileSystem) : Environment FileSystem
  | .writeFile file bytes, files =>
    if bytes.size ≤ room then answer (.writeFile file bytes) files
    else (.error (.other "no space left"), files.writeNode file (bytes.extract 0 room))
  | call, files => answer call files

theorem Environment.cramped_houses {answer : Environment FileSystem} (houses : answer.Houses id)
    (room : Nat) : (answer.cramped room).Houses id := by
  intro call files
  cases call with
  | writeFile file bytes =>
    simp only [cramped]
    split
    · exact houses (.writeFile file bytes) files
    · rcases files.writeNode_cases file (bytes.extract 0 room) with ⟨_, here, same⟩ | ⟨_, same⟩
      · rw [same]
        exact .spoiled here bytes _ _
      · rw [same]
        exact .notWritten file bytes _
  | _ => exact houses _ files

def Setup.leaving (settings : Settings) (destination : String) (others : Nat) :
    Setup FileSystem where
  environment := .leaving
  settings := settings
  destination := .ofString destination
  workers := others + 1
  staffed := Nat.succ_pos others

def Setup.cramped (room : Nat) (settings : Settings) (destination : String) : Setup FileSystem :=
  { leaving settings destination 0 with environment := .cramped room .leaving }

def Job.below (root relative node destination : String) : Job where
  input := (Path.ofString root).append (.ofString relative)
  relative := .ofString relative
  output := (Path.ofString destination).append (.ofString relative)
  moduleName := none
  nodeName := node

def twoModules : FileSystem where
  nodes := #[.directory 0 [(Text.encode "in", 1), (Text.encode "out", 4)],
    .directory 0 [(Text.encode "a.js", 2), (Text.encode "b.js", 3)], .file "a".toUTF8,
    .file "b".toUTF8, .directory 0 [(Text.encode "b.js", 5)], .file "older and longer".toUTF8]
  root := 0
  home := 0

end Sample

namespace Setup

theorem reachable_of_run {m : Setup σ} {jobs : List Job} {start after : σ}
    {r : Except RunError Summary}
    (run : runSequentially m.environment m.settings m.destination jobs start = (r, after)) :
    ∃ s, m.Reachable jobs start s ∧ s.result? = some r ∧ s.surroundings = after := by
  obtain ⟨s, reach, returned, surroundings⟩ := sequential_reachable m jobs start
  rw [run] at returned surroundings
  exact ⟨s, reach, returned, surroundings⟩

theorem module_of_leaving {settings : Settings} {destination : String} {others : Nat}
    {jobs : List Job} {start : FileSystem} {s : Run FileSystem}
    (reach : (leaving settings destination others).Reachable jobs start s) {t : Task}
    (mem : t ∈ s.tasks) {source : String} {module : Compiled}
    (asked : t.CompiledOnce settings source module) : module.code = source := by
  have there : ⟨.compile ⟨source, t.job.moduleName, settings⟩, .ok module⟩ ∈ t.transcript := by
    refine List.mem_of_mem_filter (p := (·.call.isCompile)) ?_
    rw [asked]
    exact List.mem_singleton_self _
  rcases answered_of_reachable reach t mem _ there with report | ⟨files, told⟩
  · cases report
  · exact congrArg Compiled.code (Except.ok.inj told)

set_option maxRecDepth 4000 in
theorem outputs_of_two_modules :
    ∃ s : Run FileSystem, s.result? = some (.ok ⟨2, some (.ofString "out/graph.json")⟩) ∧
      s.tasks.map Task.job = [.below "in" "a.js" "a" "out", .below "in" "b.js" "b" "out"] ∧
      ∀ t ∈ s.tasks, ∃ source module, t.CompiledOnce { graph := true } source module ∧
        s.surroundings.Contains t.job.output module.code.toUTF8 := by
  have sound : twoModules.Sound :=
    FileSystem.sound_of_numbered (by decide) (by decide) (by decide +kernel)
  have once : twoModules.NoHardLinks := FileSystem.noHardLinks_of_nodup (by decide +kernel)
  have clean : twoModules.Clean (.ofString "out") :=
    FileSystem.clean_of_linkless (by decide +kernel)
  have receives : twoModules.Receives (.ofString "out") :=
    FileSystem.receives_of_level (sound.tree once) clean (by decide +kernel)
  have found : Discovery.jobs twoModules [.ofString "in"] (.ofString "out") { graph := true } =
      .ok [.below "in" "a.js" "a" "out", .below "in" "b.js" "b" "out"] := by cbv
  obtain ⟨s, reach, returned, _⟩ := sequential_reachable (leaving { graph := true } "out" 1)
    [.below "in" "a.js" "a" "out", .below "in" "b.js" "b" "out"] twoModules
  have well : s.result? = some (.ok ⟨2, some (.ofString "out/graph.json")⟩) := by
    rw [returned]
    cbv
  obtain ⟨_, jobs, _, outputs⟩ := outputs_of_ok (m := leaving { graph := true } "out" 1)
    Environment.leaving_houses sound once receives found reach well
  refine ⟨s, well, jobs, fun t mem => ?_⟩
  obtain ⟨source, module, compiled, contains⟩ := outputs t mem
  refine ⟨source, module, compiled, contains ?_⟩
  have elsewhere : ∀ job ∈ [Job.below "in" "a.js" "a" "out", .below "in" "b.js" "b" "out"],
      job.output ≠ graphPath (.ofString "out") := by decide +kernel
  rintro ⟨_, graph⟩
  exact elsewhere t.job (jobs ▸ List.mem_map_of_mem mem) graph

def linkedOutput : FileSystem where
  nodes := #[.directory 0 [(Text.encode "e", 4), (Text.encode "in", 1)],
    .directory 0 [(Text.encode "a.js", 2), (Text.encode "b.js", 3)], .file "a".toUTF8,
    .file "b".toUTF8, .directory 0 [(Text.encode "a.js", 6), (Text.encode "b.js", 5)],
    .file "old".toUTF8, .link (.ofString "b.js")]
  root := 0
  home := 0

def linkedJobs : List Job := [.below "in" "a.js" "a" "t/../e", .below "in" "b.js" "b" "t/../e"]

def linkedAfter : FileSystem where
  nodes := #[.directory 0 [(Text.encode "e", 4), (Text.encode "in", 1), (Text.encode "t", 7)],
    .directory 0 [(Text.encode "a.js", 2), (Text.encode "b.js", 3)], .file "a".toUTF8,
    .file "b".toUTF8, .directory 0 [(Text.encode "a.js", 6), (Text.encode "b.js", 5)],
    .file "b".toUTF8, .link (.ofString "b.js"), .directory 0 []]
  root := 0
  home := 0

set_option maxRecDepth 4000 in
theorem linkedOutput_run :
    runSequentially .leaving {} (.ofString "t/../e") linkedJobs linkedOutput =
      (.ok ⟨2, none⟩, linkedAfter) := by
  cbv

/-- A destination that is missing need not be empty when it comes to be: `t/../e` is missing for
as long as `t` is, and with it there is `e` as it was. -/
theorem output_lost_behind_missing_name :
    linkedOutput.Sound ∧ linkedOutput.NoHardLinks ∧
      linkedOutput.pathExists (.ofString "t/../e") = false ∧
      Discovery.jobs linkedOutput [.ofString "in"] (.ofString "t/../e") {} = .ok linkedJobs ∧
      ∃ s, (leaving {} "t/../e" 0).Reachable linkedJobs linkedOutput s ∧
        s.result? = some (.ok ⟨2, none⟩) ∧ ∃ t ∈ s.tasks,
          (∃ id, s.surroundings.resolve t.job.output = .ok id ∧
            s.surroundings.node? id = some (.file "b".toUTF8)) ∧
          (∃ id, s.surroundings.resolve t.job.input = .ok id ∧
            s.surroundings.node? id = some (.file "a".toUTF8)) ∧
          ∀ bytes, ¬s.surroundings.Contains t.job.output bytes := by
  obtain ⟨s, reach, well, after⟩ := reachable_of_run (m := leaving {} "t/../e" 0) linkedOutput_run
  have first : .below "in" "a.js" "a" "t/../e" ∈ s.tasks.map Task.job := by
    simp [(valid_of_reachable reach).jobs, linkedJobs]
  obtain ⟨t, mem, job⟩ := List.mem_map.mp first
  refine ⟨FileSystem.sound_of_numbered (by decide) (by decide) (by decide +kernel),
    FileSystem.noHardLinks_of_nodup (by decide +kernel), by cbv, by cbv, s, reach, well, t, mem, ?_⟩
  rw [job, after]
  refine ⟨⟨5, by cbv, rfl⟩, ⟨2, by cbv, rfl⟩, ?_⟩
  rintro bytes ⟨id, leads, file⟩
  have link : id = 6 := Except.ok.inj (leads.symm.trans (by cbv))
  subst link
  cases file

end Setup

end ModuleTree
