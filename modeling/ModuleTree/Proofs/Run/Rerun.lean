import Mathlib
import ModuleTree.Proofs.Run.Remains
/- A run once more. After a run that ended well, another one with the same arguments asks the
   compiler the same, comes to the same and leaves the files as they are, however many workers
   there are and in whatever order they come. -/
namespace ModuleTree

variable {σ : Type}

abbrev Setup.staffedBy (m : Setup σ) (workers : Nat) (staffed : 0 < workers) : Setup σ :=
  { m with workers, staffed }

structure Redone (t t' : Transcript) : Prop where
  created : ∀ id, Creates t id ↔ Creates t' id
  unspoiled : Unspoiled t
  unspoiled' : Unspoiled t'
  same : deposit t = deposit t'

theorem redone_of_wrote {fs : FileSystem} {t t' : Transcript} {p : Path} {bytes : ByteArray}
    (turns : Turns t) (turns' : Turns t') (wrote : Wrote t p bytes) (wrote' : Wrote t' p bytes)
    (leads : ∀ id, Creates t id → fs.resolve p = .ok id)
    (leads' : ∀ id, Creates t' id → fs.resolve p = .ok id) : Redone t t' := by
  refine ⟨fun id => ?_, turns.unspoiled_of_wrote wrote, turns'.unspoiled_of_wrote wrote',
    (deposit_of_wrote wrote).trans (deposit_of_wrote wrote').symm⟩
  obtain ⟨file, made, _⟩ := wrote
  obtain ⟨file', made', _⟩ := wrote'
  constructor
  · intro created
    cases (leads id created).symm.trans (leads' file' ⟨p, made'⟩)
    exact ⟨p, made'⟩
  · intro created
    cases (leads' id created).symm.trans (leads file ⟨p, made⟩)
    exact ⟨p, made⟩

namespace Run

def compiles (s : Run σ) : List (Job × Transcript) :=
  s.tasks.map fun t => (t.job, t.transcript.filter (·.call.isCompile))

/-- A run that has come to what the compiler makes of the sources in these files. -/
structure Accomplished (s : Run σ) (fs : FileSystem) (compiler : PureCompiler)
    (settings : Settings) (destination : Path) (jobs : List Job) : Prop where
  known : s.tasks.map Task.job = jobs
  delivers : ∀ t ∈ s.tasks, ∃ source module, t.Delivers fs compiler settings source module
  graph : settings.graph → Wrote s.minutes (graphPath destination)
    (Forecast.graphText ⟨jobs.map (Job.foretold fs compiler settings), true⟩ jobs).toUTF8

theorem Accomplished.compiles {s : Run σ} {fs : FileSystem} {compiler : PureCompiler}
    {settings : Settings} {destination : Path} {jobs : List Job}
    (accomplished : s.Accomplished fs compiler settings destination jobs) :
    s.compiles = jobs.map fun job => (job, (job.request? fs settings).toList.map fun request =>
      ⟨.compile request, compiler request⟩) := by
  rw [Run.compiles, ← accomplished.known, List.map_map, List.map_inj_left]
  intro t mem
  obtain ⟨source, module, ⟨id, bytes, reads⟩, compiled, asked, _⟩ := accomplished.delivers t mem
  rw [asked, Function.comp_apply, Job.request?_of_reads reads]
  simp [compiled]

end Run

namespace Setup
open Run FileSystem

variable {m : Setup σ} {jobs : List Job} {start : σ} {s : Run σ} {files : σ → FileSystem}
  {compiler : PureCompiler} {roots : List Path} {summary : Summary} {id : NodeId}

theorem meets_of_delivers {fs : FileSystem} (valid : s.Valid m jobs)
    (returned : s.result? = some (.ok summary))
    (delivers : ∀ t ∈ s.tasks, ∃ source module, t.Delivers fs compiler m.settings source module) :
    s.Meets m ⟨jobs.map (Job.foretold fs compiler m.settings), true⟩ := by
  refine meets_of_tasks valid (fun t mem => ?_) fun graph _ => wroteGraph_of_ok valid graph returned
  obtain ⟨source, module, delivers⟩ := delivers t mem
  obtain ⟨_, _, _, _, _, succeeded, _⟩ := Run.ends_well valid returned
  rw [delivers.foretold]
  refine ⟨fun c brought => ?_, fun e failed => ?_⟩
  · rw [delivers.written.1] at brought
    exact List.mem_singleton.mp brought
  · cases (succeeded t mem).symm.trans failed.1

theorem accomplished_of_ok {fs : FileSystem} (valid : s.Valid m jobs)
    (returned : s.result? = some (.ok summary))
    (delivers : ∀ t ∈ s.tasks, ∃ source module, t.Delivers fs compiler m.settings source module) :
    summary = Forecast.summary m.settings m.destination jobs ∧
      s.Accomplished fs compiler m.settings m.destination jobs := by
  obtain ⟨sums, graph⟩ :=
    ends_as_foretold valid returned (meets_of_delivers valid returned delivers)
  exact ⟨sums, valid.jobs, delivers, graph⟩

theorem delivers_of_inPlace (houses : m.environment.Houses files)
    (willing : m.environment.Willing files) (pure : m.environment.CompilesBy compiler)
    (inPlace : m.InPlace (files start) compiler jobs) (reach : m.Reachable jobs start s)
    (returned : s.result? = some (.ok summary)) {t : Task} (mem : t ∈ s.tasks) :
    ∃ source module, t.Delivers (files start) compiler m.settings source module := by
  obtain ⟨_, own, _, _⟩ := inPlace_of_mem houses willing inPlace reach mem
  obtain ⟨id, bytes, source, _, reads, _⟩ := own.compiled
  obtain ⟨_, _, _, module, asked, _, _, written⟩ := delivered_of_ok reach returned mem
  obtain ⟨same, told⟩ := compiles_as_before houses willing inPlace reach pure mem reads
    (List.mem_of_mem_filter (asked ▸ List.mem_singleton_self _))
  cases same
  exact ⟨source, module, ⟨id, bytes, reads⟩, told.symm, asked, written⟩

theorem graph_of_creates (reach : m.Reachable jobs start s) (created : Creates s.minutes id) :
    m.settings.graph := by
  obtain ⟨p, there⟩ := created
  exact ((minuted_of_reachable reach).minutes _ there).1

section Twice

variable {workers : Nat} {staffed : 0 < workers} {again : σ} {s' : Run σ}
  (houses : m.environment.Houses files) (reach : m.Reachable jobs start s)
  (reach' : (m.staffedBy workers staffed).Reachable jobs again s')
  (rewritten : (files s.surroundings).Rewritten (files s'.surroundings))
  (first : s.Accomplished (files s.surroundings) compiler m.settings m.destination jobs)
  (second : s'.Accomplished (files s.surroundings) compiler m.settings m.destination jobs)
include houses reach reach' rewritten first second

theorem graph_redone (graph : m.settings.graph) : Redone s.minutes s'.minutes :=
  redone_of_wrote (turns_of_minutes reach) (turns_of_minutes reach') (first.graph graph)
    (second.graph graph) (fun _ created =>
      rewritten.grows.resolve (resolve_of_creates_minutes houses reach created))
    fun _ => resolve_of_creates_minutes (m := m.staffedBy workers staffed) houses reach'

theorem output_redone {u : Task} (mem : u ∈ s'.tasks) :
    ∃ t ∈ s.tasks, Redone t.transcript u.transcript := by
  have job : u.job ∈ jobs := second.known ▸ List.mem_map_of_mem mem
  rw [← first.known] at job
  obtain ⟨t, there, same⟩ := List.mem_map.mp job
  obtain ⟨source, module, delivers⟩ := first.delivers t there
  obtain ⟨source', module', delivers'⟩ := second.delivers u mem
  have turns : Turns t.transcript :=
    turns_of_regular (regular_of_reachable reach _ (List.mem_map_of_mem there))
  have turns' : Turns u.transcript :=
    turns_of_regular (regular_of_reachable reach' _ (List.mem_map_of_mem mem))
  have foretold := delivers.foretold
  rw [same, delivers'.foretold] at foretold
  cases foretold
  have leads (id : NodeId) (created : Creates t.transcript id) :
      (files s'.surroundings).resolve t.job.output = .ok id :=
    rewritten.grows.resolve (resolve_of_creates houses reach (List.mem_map_of_mem there) created)
  have leads' (id : NodeId) (created : Creates u.transcript id) :
      (files s'.surroundings).resolve u.job.output = .ok id :=
    resolve_of_creates (m := m.staffedBy workers staffed) houses reach' (List.mem_map_of_mem mem)
      created
  rw [← same] at leads'
  exact ⟨t, there, redone_of_wrote turns turns' delivers.written.2
    (same ▸ delivers'.written.2) leads leads'⟩

/-- Whatever is in a file after the second run was in it after the first. -/
theorem content_redone {content content' : ByteArray} (spread : Spread m.destination jobs)
    (sound : (files start).Sound) (unshared : (files start).Awaits m.destination Unshared)
    (same : files again = files s.surroundings)
    (before : (files s.surroundings).node? id = some (.file content))
    (after : (files s'.surroundings).node? id = some (.file content')) : content' = content := by
  have sound' : (files again).Sound := same ▸ sound_of_reachable houses sound reach
  have unshared' : (files again).Awaits m.destination Unshared :=
    same ▸ unshared_of_reachable houses spread sound unshared reach
  have filled := filled_of_reachable houses spread sound unshared reach before
  have graph := graph_redone houses reach reach' rewritten first second
  cases filled_of_reachable (m := m.staffedBy workers staffed) houses spread sound' unshared'
    reach' after with
  | graph created' left' =>
    have redone := graph (graph_of_creates (m := m.staffedBy workers staffed) reach' created')
    have created := (redone.created id).mpr created'
    cases filled with
    | graph _ left => rw [left redone.unspoiled, left' redone.unspoiled', redone.same]
    | output _ _ later | untouched _ later => exact absurd created later
  | output mem' created' later' left' =>
    obtain ⟨u, there', rfl⟩ := mem_records mem'
    obtain ⟨t, there, redone⟩ := output_redone houses reach reach' rewritten first second there'
    have created := (redone.created id).mpr created'
    have mem : (t.job, t.transcript) ∈ s.records := List.mem_map_of_mem there
    cases filled with
    | graph first_ =>
      exact absurd (((graph (graph_of_creates reach first_)).created id).mp first_) later'
    | output mem_ created_ _ left =>
      cases one_owner houses spread sound unshared reach mem_ mem created_ created
      rw [left redone.unspoiled, left' redone.unspoiled', redone.same]
    | untouched untaken => exact absurd created (untaken _ mem)
  | untouched _ _ still =>
    rw [same] at still
    cases before.symm.trans still
    rfl

end Twice

section Rerun

variable {again : σ} (houses : m.environment.Houses files)
  (willing : m.environment.Willing files) (pure : m.environment.CompilesBy compiler)
  (sound : (files start).Sound)
  (locks : (files start).LocksThere) (unshared : (files start).Awaits m.destination Unshared)
  (clear : Walk.Clear (files start) (files s.surroundings) roots m.destination)
  (same : files again = files s.surroundings)
include houses willing pure sound locks unshared clear same

theorem redone_of_ok {workers : Nat} {staffed : 0 < workers} {s' : Run σ}
    {r : Except RunError Summary}
    (found : Discovery.jobs (files start) roots m.destination m.settings = .ok jobs)
    (reach : m.Reachable jobs start s) (returned : s.result? = some (.ok summary))
    (reach' : (m.staffedBy workers staffed).Reachable jobs again s')
    (returned' : s'.result? = some r) :
    r = .ok summary ∧ files s'.surroundings = files again ∧ s'.compiles = s.compiles ∧
      ∀ x ∈ s.minutes ++ s'.minutes, x.call.isCompile = false := by
  have valid := valid_of_reachable reach
  have valid' := valid_of_reachable reach'
  have spread : Spread m.destination jobs := spread_of_discovered sound found
  have inPlace := inPlace_of_ok houses sound unshared found clear reach pure locks returned
  have delivers {t : Task} (mem : t ∈ s.tasks) :=
    delivers_of_ok houses sound unshared found clear reach pure locks returned mem
  rw [← same] at inPlace delivers
  have inPlace' : (m.staffedBy workers staffed).InPlace (files again) compiler jobs :=
    ⟨inPlace.each, inPlace.apart, inPlace.destination, inPlace.graph⟩
  have meets := meets_of_delivers valid returned fun t => delivers
  have meets' := meets_of_inPlace (m := m.staffedBy workers staffed) houses willing pure inPlace' reach'
    returned'
  cases r with
  | error e =>
    have unpromised :=
      not_promised_of_error (m := m.staffedBy workers staffed) valid' returned' meets'
    exact absurd (promised_of_ok valid returned meets) unpromised
  | ok summary' =>
    obtain ⟨sums, first⟩ := accomplished_of_ok valid returned fun t => delivers
    obtain ⟨sums', second⟩ := accomplished_of_ok valid' returned' fun t =>
      delivers_of_inPlace (m := m.staffedBy workers staffed) houses willing pure inPlace' reach' returned'
    have rewritten :=
      (rewritten_of_reachable (m := m.staffedBy workers staffed) houses willing inPlace' reach').1
    refine ⟨by rw [sums, sums'], rewritten.eq fun id content content' before after => ?_,
      second.compiles.trans first.compiles.symm, fun x mem => ?_⟩
    · rw [same] at rewritten first second before
      exact content_redone houses reach reach' rewritten first second spread sound unshared same
        before after
    · rcases List.mem_append.mp mem with there | there
      · exact uncompiled_of_flushGrounded (minuted_of_reachable reach).minutes x there
      · exact uncompiled_of_flushGrounded (minuted_of_reachable reach').minutes x there

/-- After a run that ended well another one with the same arguments, whatever its workers and its
schedule, ends well and with the same summary; it asks the compiler the same, job by job, and the
files are just what they were. The walk sees neither the destination nor what is below it, nor a
directory that the run has made; and below the destination are no links, neither symbolic nor hard
ones, also when the directories of its own path have been made. No call fails where the files would
let it succeed. -/
theorem rerun_changes_nothing
    (ends : m.Returns start (Discovery.jobs (files start) roots m.destination m.settings) (some s)
      (.ok summary)) (workers : Nat) (staffed : 0 < workers) :
    (∃ s', (m.staffedBy workers staffed).Returns again
      (Discovery.jobs (files again) roots m.destination m.settings) (some s') (.ok summary)) ∧
    ∀ final r, (m.staffedBy workers staffed).Returns again
      (Discovery.jobs (files again) roots m.destination m.settings) final r →
        r = .ok summary ∧ ∃ s', final = some s' ∧ files s'.surroundings = files again ∧
          s'.compiles = s.compiles ∧ ∀ x ∈ s.minutes ++ s'.minutes, x.call.isCompile = false := by
  generalize found : Discovery.jobs (files start) roots m.destination m.settings = outcome at ends
  cases ends with
  | @settled jobs _ _ reach returned =>
    have discovered := discovered_again houses sound unshared found clear reach
    have redone {s' : Run σ} {r : Except RunError Summary}
        (reach' : (m.staffedBy workers staffed).Reachable jobs again s')
        (returned' : s'.result? = some r) :=
      redone_of_ok houses willing pure sound locks unshared clear same found reach returned reach' returned'
    rw [same, discovered]
    constructor
    · obtain ⟨s', reach', returned', _⟩ :=
        sequential_reachable (m.staffedBy workers staffed) jobs again
      have well := (redone reach' returned').1
      rw [well] at returned'
      exact ⟨s', .settled reach' returned'⟩
    · intro final r ends
      cases ends with
      | @settled _ s' _ reach' returned' =>
        obtain ⟨well, unchanged, rest⟩ := redone reach' returned'
        exact ⟨well, s', rfl, unchanged.trans same, rest⟩

end Rerun

def twoModulesAfter : FileSystem where
  nodes := #[.directory 0 [(Text.encode "in", 1), (Text.encode "out", 4)],
    .directory 0 [(Text.encode "a.js", 2), (Text.encode "b.js", 3)], .file "a".toUTF8,
    .file "b".toUTF8, .directory 0 [(Text.encode "a.js", 6), (Text.encode "b.js", 5),
      (Text.encode "graph.json", 7)], .file "b".toUTF8, .file "a".toUTF8,
    .file (Accumulator.fileText (.ofList [("a", []), ("b", [])])).toUTF8]
  root := 0
  home := 0

set_option maxRecDepth 4000 in
theorem twoModules_run :
    runSequentially .leaving { graph := true } (.ofString "out")
        [.below "in" "a.js" "a" "out", .below "in" "b.js" "b" "out"] twoModules =
      (.ok ⟨2, some (.ofString "out/graph.json")⟩, twoModulesAfter) := by
  cbv

set_option maxRecDepth 4000 in
theorem rerun_over_two_modules :
    ∃ s : Run FileSystem, s.result? = some (.ok ⟨2, some (.ofString "out/graph.json")⟩) ∧
      s.surroundings = twoModulesAfter ∧
      ∀ final r, (leaving { graph := true } "out" 0).Returns twoModulesAfter
        (Discovery.jobs twoModulesAfter [.ofString "in"] (.ofString "out") { graph := true })
          final r → r = .ok ⟨2, some (.ofString "out/graph.json")⟩ ∧
            ∃ s', final = some s' ∧ s'.surroundings = twoModulesAfter ∧
              s'.compiles = s.compiles := by
  obtain ⟨s, reach, well, after⟩ :=
    reachable_of_run (m := leaving { graph := true } "out" 1) twoModules_run
  have sound : twoModules.Sound :=
    sound_of_numbered (by decide) (by decide) (by decide +kernel)
  have clean : twoModules.Clean (.ofString "out") := clean_of_linkless (by decide +kernel)
  have unshared : twoModules.Awaits (.ofString "out") Unshared :=
    unshared_of_level sound.bounded (by decide +kernel) fun id there =>
      ⟨(clean id there).linkFree, (noHardLinks_of_nodup (by decide +kernel)).namesOnce id⟩
  have found : Discovery.jobs twoModules [.ofString "in"] (.ofString "out") { graph := true } =
      .ok [.below "in" "a.js" "a" "out", .below "in" "b.js" "b" "out"] := by cbv
  have clear : Walk.Clear twoModules twoModulesAfter [.ofString "in"] (.ofString "out") := by
    have there : twoModulesAfter.resolve (.ofString "in") = .ok 1 := by cbv
    have there' : twoModulesAfter.resolve (.ofString "out") = .ok 4 := by cbv
    have apart : ∀ id ∈ [1, 2, 3], id ∉ [4, 5, 6, 7] ∧ id < twoModules.nodes.size := by decide
    refine Walk.clear_of_closed (fun root mem top found => ?_) ?_ ?_ there' ?_ ?_ apart
    · cases List.mem_singleton.mp mem
      cases there.symm.trans found
      exact List.mem_cons_self
    all_goals decide +kernel
  have ends : (leaving { graph := true } "out" 1).Returns twoModules
      (Discovery.jobs twoModules [.ofString "in"] (.ofString "out") { graph := true }) (some s)
      (.ok ⟨2, some (.ofString "out/graph.json")⟩) := found ▸ .settled reach well
  have locks : twoModules.LocksThere := fun id locked => by cases locked
  have redone := (rerun_changes_nothing (m := leaving { graph := true } "out" 1)
    Environment.leaving_houses Environment.leaving_willing (fun _ _ => rfl) sound locks unshared
    (after ▸ clear) after.symm ends 1 Nat.one_pos).2
  refine ⟨s, well, after, fun final r ends => ?_⟩
  obtain ⟨same, s', settled, unchanged, compiles, _⟩ := redone final r ends
  exact ⟨same, s', settled, unchanged, compiles⟩

def linkedSource : FileSystem where
  nodes := #[.directory 0 [(Text.encode "e", 4), (Text.encode "in", 1)],
    .directory 0 [(Text.encode "a.js", 2), (Text.encode "b.js", 3)], .file "a".toUTF8,
    .file "b".toUTF8, .directory 0 [(Text.encode "b.js", 5)], .link (.ofString "../in/a.js")]
  root := 0
  home := 0

def linkedSourceAfter (compiled : String) : FileSystem where
  nodes := #[.directory 0 [(Text.encode "e", 4), (Text.encode "in", 1), (Text.encode "t", 6)],
    .directory 0 [(Text.encode "a.js", 2), (Text.encode "b.js", 3)], .file "b".toUTF8,
    .file "b".toUTF8, .directory 0 [(Text.encode "a.js", 7), (Text.encode "b.js", 5)],
    .link (.ofString "../in/a.js"), .directory 0 [], .file compiled.toUTF8]
  root := 0
  home := 0

set_option maxRecDepth 4000 in
theorem linkedSource_run :
    runSequentially .leaving {} (.ofString "t/../e") linkedJobs linkedSource =
      (.ok ⟨2, none⟩, linkedSourceAfter "a") := by
  cbv

set_option maxRecDepth 4000 in
theorem linkedSource_rerun :
    runSequentially .leaving {} (.ofString "t/../e") linkedJobs (linkedSourceAfter "a") =
      (.ok ⟨2, none⟩, linkedSourceAfter "b") := by
  cbv

set_option maxRecDepth 4000 in
/-- A destination that is missing has no links below it, and may have them when it comes to be. One
of them leads to a source, and the second run compiles what the first has written there. -/
theorem rerun_behind_missing_name :
    linkedSource.Sound ∧ linkedSource.LocksThere ∧
      linkedSource.pathExists (.ofString "t/../e") = false ∧
      (∀ top, linkedSource.LeadsTo (.ofString "t/../e") (Path.ofString "t/../e").segmentNames top →
        linkedSource.Unshared top) ∧
      ∃ s, (leaving {} "t/../e" 0).Returns linkedSource
          (Discovery.jobs linkedSource [.ofString "in"] (.ofString "t/../e") {}) (some s)
          (.ok ⟨2, none⟩) ∧
        Walk.Clear linkedSource s.surroundings [.ofString "in"] (.ofString "t/../e") ∧
        s.surroundings.Contains (.ofString "e/a.js") "a".toUTF8 ∧
        ∃ s', (leaving {} "t/../e" 0).Returns s.surroundings
            (Discovery.jobs s.surroundings [.ofString "in"] (.ofString "t/../e") {}) (some s')
            (.ok ⟨2, none⟩) ∧
          s'.surroundings.Contains (.ofString "e/a.js") "b".toUTF8 := by
  obtain ⟨s, reach, well, after⟩ :=
    reachable_of_run (m := leaving {} "t/../e" 0) linkedSource_run
  obtain ⟨s', reach', well', after'⟩ :=
    reachable_of_run (m := leaving {} "t/../e" 0) linkedSource_rerun
  have found : Discovery.jobs linkedSource [.ofString "in"] (.ofString "t/../e") {} =
      .ok linkedJobs := by cbv
  have found' : Discovery.jobs (linkedSourceAfter "a") [.ofString "in"] (.ofString "t/../e") {} =
      .ok linkedJobs := by cbv
  have absent (top : NodeId) :
      ¬linkedSource.LeadsTo (.ofString "t/../e") (Path.ofString "t/../e").segmentNames top := by
    intro there
    have missing : linkedSource.resolve (.ofString "t/../e") = .error .notFound := by cbv
    have slashless : (Path.ofString "t/../e").endsInSlash = false := by decide +kernel
    have resolved := resolve_iff.mpr ⟨by cbv, there, by simp [slashless]⟩
    cases missing.symm.trans resolved
  have clear : Walk.Clear linkedSource (linkedSourceAfter "a") [.ofString "in"]
      (.ofString "t/../e") := by
    have there : (linkedSourceAfter "a").resolve (.ofString "in") = .ok 1 := by cbv
    have there' : (linkedSourceAfter "a").resolve (.ofString "t/../e") = .ok 4 := by cbv
    have apart : ∀ id ∈ [1, 2, 3], id ∉ [4, 5, 7] ∧ id < linkedSource.nodes.size := by decide
    refine Walk.clear_of_closed (fun root mem top found => ?_) ?_ ?_ there' ?_ ?_ apart
    · cases List.mem_singleton.mp mem
      cases there.symm.trans found
      exact List.mem_cons_self
    all_goals decide +kernel
  have sound : linkedSource.Sound :=
    sound_of_numbered (by decide) (by decide) (by decide +kernel)
  have locks : linkedSource.LocksThere := fun id locked => by cases locked
  have missing : linkedSource.pathExists (.ofString "t/../e") = false := by cbv
  rw [found]
  refine ⟨sound, locks, missing, fun top there => absurd there (absent top), s,
    .settled reach well, ?_⟩
  rw [after, found']
  refine ⟨clear, ⟨7, by cbv, rfl⟩, s', .settled reach' well', ?_⟩
  rw [after']
  exact ⟨7, by cbv, rfl⟩

end Setup

end ModuleTree
