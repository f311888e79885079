import Mathlib
import ModuleTree.Proofs.Run.Content
import ModuleTree.Proofs.Run.Frame
import ModuleTree.Proofs.Run.Rewriting
import ModuleTree.Proofs.Walk.Again
/- What a run that ends well leaves behind. Its outputs and their directories are there and can be
   created once more, and the sources that it has compiled are what they were, so that everything
   is in place for another run. -/
namespace ModuleTree

variable {σ : Type}

namespace FileSystem

variable {fs fs' : FileSystem} {p : Path} {id : NodeId}

theorem creatable_of_createFile (bounded : fs.Bounded) (locks : fs.LocksThere)
    (created : fs.createFile p = .ok (id, fs')) : id < fs'.nodes.size ∧ fs'.Creatable p id := by
  obtain ⟨there, inside, plain⟩ := Setup.created_of_createFile bounded created
  refine ⟨inside, there, (createFile_ok created).2.1, plain, ?_⟩
  rw [(Answers.createFile created).grows.isLocked]
  rcases unlocked_of_createFile created with unlocked | new
  · exact unlocked
  · rw [← Bool.not_eq_true]
    intro locked
    have old := locks id (by simpa [isLocked] using locked)
    exact absurd new (Nat.ne_of_lt old)

end FileSystem

def Reopens (fs : FileSystem) : Exchange → Prop
  | ⟨.openFile p, .ok id⟩ => fs.openFile p = .ok id
  | ⟨.createFile p, .ok id⟩ => id < fs.nodes.size ∧ fs.Creatable p id
  | _ => True

/-- A task that has compiled the text that its job reads in these files, and has written the
module. -/
structure Task.Delivers (fs : FileSystem) (compiler : PureCompiler) (settings : Settings)
    (t : Task) (source : String) (module : Compiled) : Prop where
  reads : ∃ id bytes, t.job.Reads fs id bytes source
  compiled : compiler ⟨source, t.job.moduleName, settings⟩ = .ok module
  asked : t.CompiledOnce settings source module
  written : t.Written module

theorem Task.Delivers.foretold {fs : FileSystem} {compiler : PureCompiler} {settings : Settings}
    {t : Task} {source : String} {module : Compiled}
    (delivers : t.Delivers fs compiler settings source module) :
    t.job.foretold fs compiler settings = some module := by
  obtain ⟨id, bytes, reads⟩ := delivers.reads
  exact Job.foretold_of_compiled reads delivers.compiled

namespace Setup
open Run FileSystem

variable {m : Setup σ} {jobs : List Job} {start : σ} {s : Run σ} {files : σ → FileSystem}
  {compiler : PureCompiler} {roots : List Path} {summary : Summary} {id : NodeId}

theorem reopens_of_reachable (houses : m.environment.Houses files)
    (bounded : (files start).Bounded) (locks : (files start).LocksThere)
    (reach : m.Reachable jobs start s) :
    (∀ record ∈ s.records, ∀ x ∈ record.2, Reopens (files s.surroundings) x) ∧
      ∀ x ∈ s.minutes, Reopens (files s.surroundings) x := by
  refine (shown_in_order (fun fs => fs.Bounded ∧ fs.LocksThere) houses ?_ ?_ ?_ ⟨bounded, locks⟩
    reach).2
  · rintro fs x fs' ⟨bounded, locks⟩ answers
    rcases answers.changes with same | changes
    · exact same ▸ ⟨bounded, locks⟩
    · exact ⟨changes.bounded bounded, changes.locksThere locks⟩
  · rintro fs x fs' ⟨bounded, locks⟩ answers
    cases answers with
    | openFile opened => exact opened
    | createFile created => exact creatable_of_createFile bounded locks created
    | _ => trivial
  · rintro fs y fs' ⟨call, answer⟩ _ answers shown
    have grows := answers.grows
    cases call with
    | openFile p =>
      cases answer with
      | error e => trivial
      | ok id => exact grows.openFile shown
    | createFile p =>
      cases answer with
      | error e => trivial
      | ok id =>
        obtain ⟨inside, creatable⟩ := shown
        have still : id < fs'.nodes.size ∧ fs'.isDirectoryNode id = false := by
          rcases answers.changes with same | changes
          · exact same ▸ ⟨inside, creatable.plain⟩
          · exact changes.notDirectory inside creatable.plain
        exact ⟨still.1, grows.resolve creatable.there, creatable.slashless, still.2,
          (grows.isLocked id).trans creatable.unlocked⟩
    | _ => trivial

section Targets

variable (houses : m.environment.Houses files) (bounded : (files start).Bounded)
  (locks : (files start).LocksThere) (reach : m.Reachable jobs start s)
  (returned : s.result? = some (.ok summary))
include houses bounded locks reach returned

theorem output_of_ok {t : Task} (mem : t ∈ s.tasks) :
    ∃ id, Creates t.transcript id ∧ (files s.surroundings).Creatable t.job.output id := by
  obtain ⟨_, _, _, _, _, _, _, _, id, created, _⟩ := delivered_of_ok reach returned mem
  have reopens := (reopens_of_reachable houses bounded locks reach).1 (t.job, t.transcript)
    (List.mem_map_of_mem mem) _ created
  exact ⟨id, ⟨_, created⟩, reopens.2⟩

theorem graph_of_ok (graph : m.settings.graph) :
    ∃ id, (files s.surroundings).Creatable (graphPath m.destination) id := by
  obtain ⟨_, id, created, _⟩ := wroteGraph_of_ok (valid_of_reachable reach) graph returned
  exact ⟨id, ((reopens_of_reachable houses bounded locks reach).2 _ created).2⟩

end Targets

section Left

variable (houses : m.environment.Houses files) (sound : (files start).Sound)
  (unshared : (files start).Awaits m.destination Unshared)
  (found : Discovery.jobs (files start) roots m.destination m.settings = .ok jobs)
  (clear : Walk.Clear (files start) (files s.surroundings) roots m.destination)
  (reach : m.Reachable jobs start s)
include houses sound unshared found clear reach

theorem discovered_again :
    Discovery.jobs (files s.surroundings) roots m.destination m.settings = .ok jobs := by
  have spread := spread_of_discovered sound found
  exact Discovery.jobs_again (framed_of_reachable houses spread unshared.linkFree reach).1 sound
    (sound_of_reachable houses sound reach) clear found

omit found in
theorem uncreated_of_seen (spread : Spread m.destination jobs)
    (seen : Walk.Sees (files s.surroundings) roots id) :
    (∀ record ∈ s.records, ¬Creates record.2 id) ∧ ¬Creates s.minutes id := by
  have linkFree := (unshared_of_reachable houses spread sound unshared reach).linkFree _ .refl
  have aside {p : Path} (lies : m.destination.Lies p)
      (there : (files s.surroundings).resolve p = .ok id) : False := by
    obtain ⟨names, _, _, below⟩ := lies.names
    exact (clear id seen).1 names (at_of_lies linkFree lies (leadsTo_of_resolve there) below)
  constructor
  · intro record mem created
    exact aside (lies_of_record spread reach mem) (resolve_of_creates houses reach mem created)
  · intro created
    exact aside (lies_graphPath m.destination) (resolve_of_creates_minutes houses reach created)

theorem delivers_of_ok (pure : m.environment.CompilesBy compiler)
    (locks : (files start).LocksThere) (returned : s.result? = some (.ok summary)) {t : Task}
    (mem : t ∈ s.tasks) :
    ∃ source module, t.Delivers (files s.surroundings) compiler m.settings source module := by
  have spread : Spread m.destination jobs := spread_of_discovered sound found
  have record : (t.job, t.transcript) ∈ s.records := List.mem_map_of_mem mem
  have job : t.job ∈ jobs := (valid_of_reachable reach).jobs ▸ List.mem_map_of_mem mem
  have sited := (Discovery.jobs_ok sound found).1 t.job job
  obtain ⟨source, file, bytes, module, asked, read, text, written⟩ :=
    delivered_of_ok reach returned mem
  have opens : (files s.surroundings).openFile t.job.input = .ok file := by
    have grounds := grounds_of_regular (regular_of_reachable reach _ record) _ read
    exact (reopens_of_reachable houses sound.bounded locks reach).1 _ record _ grounds
  have seen : Walk.Sees (files s.surroundings) roots file :=
    Discovery.seen_of_job (sound_of_reachable houses sound reach)
      (discovered_again houses sound unshared found clear reach) job (openFile_ok opens).1
  obtain ⟨uncreated, later⟩ := uncreated_of_seen houses sound unshared clear reach spread seen
  have before : (files start).node? file = some (.file bytes) :=
    (read_as_it_was houses reach mem sited read fun record mem taken =>
      uncreated record mem ⟨_, taken⟩).2
  have after : (files s.surroundings).node? file = some (.file bytes) := by
    obtain ⟨content, after⟩ := (grows_of_reachable houses reach).file before
    cases filled_of_reachable houses spread sound unshared reach after with
    | graph created => exact absurd created later
    | output mem created => exact absurd created (uncreated _ mem)
    | untouched _ _ same =>
      cases before.symm.trans same
      exact after
  refine ⟨source, module, ⟨file, bytes, opens, after, text⟩, ?_, asked, written⟩
  have there : ⟨.compile ⟨source, t.job.moduleName, m.settings⟩, .ok module⟩ ∈ t.transcript :=
    List.mem_of_mem_filter (asked ▸ List.mem_singleton_self _)
  rcases answered_of_reachable reach t mem _ there with report | ⟨w, told⟩
  · cases report
  · exact (pure _ w).symm.trans told.symm

theorem inPlace_of_ok (pure : m.environment.CompilesBy compiler)
    (locks : (files start).LocksThere) (returned : s.result? = some (.ok summary)) :
    m.InPlace (files s.surroundings) compiler jobs := by
  have valid := valid_of_reachable reach
  have spread : Spread m.destination jobs := spread_of_discovered sound found
  have discovered := discovered_again houses sound unshared found clear reach
  have task {job : Job} (mem : job ∈ jobs) : ∃ t ∈ s.tasks, t.job = job := by
    rw [← valid.jobs] at mem
    exact List.mem_map.mp mem
  have output {t : Task} (mem : t ∈ s.tasks) :=
    output_of_ok houses sound.bounded locks reach returned mem
  have graph := graph_of_ok houses sound.bounded locks reach returned
  refine ⟨fun job mem => ?_, fun job mem other mem' id opens there => ?_, fun wanted nonempty => ?_,
    graph⟩
  · obtain ⟨t, own, rfl⟩ := task mem
    obtain ⟨id, _, creatable⟩ := output own
    obtain ⟨source, module, ⟨file, bytes, reads⟩, compiled, _⟩ :=
      delivers_of_ok houses sound unshared found clear reach pure locks returned own
    refine ⟨fun parent up nonempty => ?_, ⟨id, creatable⟩, file, bytes, source, module, reads,
      compiled⟩
    exact pathExists_above (Path.bytes_of_parent? up) nonempty (Path.shorter_of_parent? up)
      creatable.there
  · obtain ⟨t, own, rfl⟩ := task mem'
    obtain ⟨created, creates, creatable⟩ := output own
    cases creatable.there.symm.trans there
    have seen := Discovery.seen_of_job (sound_of_reachable houses sound reach) discovered mem
      (openFile_ok opens).1
    exact (uncreated_of_seen houses sound unshared clear reach spread seen).1 _
      (List.mem_map_of_mem own) creates
  · obtain ⟨id, creatable⟩ := graph wanted
    obtain ⟨names, some, _, below⟩ := (lies_graphPath m.destination).names
    exact pathExists_above (Path.bytes_of_append rfl) nonempty ⟨names, some, below⟩
      creatable.there

end Left

end Setup

end ModuleTree
