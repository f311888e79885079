import Mathlib
import ModuleTree.Proofs.FileSystem.Beside
import ModuleTree.Proofs.Run.LoneWorker
import ModuleTree.Proofs.Run.Uncompiled
/- A run with one worker that stops at a job. The jobs before it have their modules, those after
   it are untouched, and so is everything below the destination that is on the way to no output
   up to there. -/
namespace ModuleTree

variable {σ : Type}

namespace Run
open FileSystem

/-- A run that a task has brought to its end, with the files before and after it. Each task before
that one has its module, and none after it has begun. -/
structure Stopped (m : Setup σ) (before after : FileSystem) (s : Run σ) (early : List Task)
    (t : Task) (late : List Task) (e : RunError) : Prop where
  tasks : s.tasks = early ++ t :: late
  failed : t.FailedWith e
  delivered : ∀ u ∈ early, ∃ source module, u.CompiledOnce m.settings source module ∧
    after.Contains u.job.output module.code.toUTF8
  once : t.transcript.countP (·.call.isCompile) ≤ 1
  untouched : ∀ u ∈ late, u.transcript = []
  quiet : s.Quiet
  graph : (∀ u ∈ early ++ [t], ¬(graphPath m.destination).OnTheWay u.job.output) →
    after.named? (graphPath m.destination) = before.named? (graphPath m.destination)
  outputs : ∀ u ∈ late, (∀ v ∈ early ++ [t], ¬u.job.output.OnTheWay v.job.output) →
    ∀ names, (∀ name ∈ names, Path.IsName name) →
      after.named? (u.job.output.below names) = before.named? (u.job.output.below names)

end Run

theorem Path.Lies.below {destination p : Path} {names : List Bytes} (lies : destination.Lies p)
    (valid : ∀ name ∈ names, Path.IsName name) : destination.Lies (p.below names) := by
  obtain ⟨front, some, valid', whole⟩ := lies.names
  refine ⟨(Path.isAbsolute_below valid).trans lies.absolute, front ++ names, by simp [some], ?_, ?_⟩
  · intro name mem
    exact (List.mem_append.mp mem).elim (valid' name) (valid name)
  · rw [Path.segmentNames_below valid, whole, List.append_assoc]

namespace Setup
open Run FileSystem

variable {m : Setup σ} {jobs : List Job} {start : σ} {s s' : Run σ} {files : σ → FileSystem}
  {roots : List Path}

theorem untouched_of_reachable (reach : m.Reachable jobs start s) :
    ∀ t ∈ s.tasks, t.started = false → t.transcript = [] := by
  induction reach with
  | start =>
    intro t mem _
    obtain ⟨job, _, same⟩ := List.mem_map.mp mem
    exact same ▸ rfl
  | step _ step ih =>
    rcases step_tasks step with same | ⟨before, t, t', after, old, new, advances⟩
    · exact same ▸ ih
    · rw [old] at ih
      rw [new]
      apply forall_replaced ih
      intro fresh
      cases advances with
      | starts => cases fresh
      | answered started =>
        have taken : t.started = false := fresh
        rw [started] at taken
        cases taken

theorem beside_of_reachable (houses : m.environment.Houses files)
    (spread : Spread m.destination jobs) (ready : (files start).Ready m.destination)
    (opens : (files start).OpensEmpty m.destination) (reach : m.Reachable jobs start s) :
    (files start).Beside (files s.surroundings) m.destination (m.Sites s) := by
  induction reach with
  | start => exact ⟨framed_refl _ _ _, ready, opens.traced _⟩
  | step reach step ih =>
    exact ih.puts (fun _ => lies_of_sites spread (reach.step step))
      (puts_of_step houses spread reach step) fun _ => sites_of_step houses reach step

theorem around_failure {done left : List Task} {t : Task} {e : RunError} (alone : m.workers = 1)
    (reach : m.Reachable jobs start s) (tasks : s.tasks = done ++ t :: left)
    (failed : t.result? = some (.error e)) :
    (∀ u ∈ done, u.result? = some (.ok ())) ∧ ∀ u ∈ left, u.transcript = [] := by
  have turns := turns_of_reachable alone reach
  have started : t.started = true := by
    rw [← Bool.not_eq_false]
    intro fresh
    have none := ((valid_of_reachable reach).tasks t (by simp [tasks])).fresh fresh
    simp [failed] at none
  refine ⟨earlier_succeeded tasks started turns, fun u mem => ?_⟩
  apply untouched_of_reachable reach u (by simp [tasks, mem])
  rw [← Bool.not_eq_true]
  intro begun
  unfold TakesTurns at turns
  rw [tasks] at turns
  have succeeded := (List.pairwise_cons.mp (List.pairwise_append.mp turns).2.1).1 u mem begun
  simp [failed] at succeeded

theorem as_it_was {early late : List Task} {p : Path}
    (beside : (files start).Beside (files s.surroundings) m.destination (m.Sites s))
    (sound : (files start).Sound) (receives : (files start).Receives m.destination)
    (spread : Spread m.destination jobs) (reach : m.Reachable jobs start s)
    (tasks : s.tasks = early ++ late) (untouched : ∀ u ∈ late, u.transcript = [])
    (unbegun : s.flushes = 0) (lies : m.destination.Lies p)
    (apart : ∀ u ∈ early, ¬p.OnTheWay u.job.output) :
    (files s.surroundings).named? p = (files start).named? p := by
  apply beside.named? sound receives lies
  rintro site (⟨record, mem, begun, same⟩ | ⟨begun, _⟩) way
  · obtain ⟨u, there, rfl⟩ := mem_records mem
    rw [tasks] at there
    rcases List.mem_append.mp there with here | later
    · have absolute := (lies_of_record spread reach mem).absolute
      subst same
      exact apart u here ⟨lies.absolute.trans absolute.symm, way⟩
    · exact begun (untouched u later)
  · exact begun unbegun

theorem delivered_of_succeeded (houses : m.environment.Houses files)
    (ready : (files start).Ready m.destination) (spread : Spread m.destination jobs)
    (reach : m.Reachable jobs start s) {t : Task} (mem : t ∈ s.tasks)
    (succeeded : t.result? = some (.ok ())) :
    ∃ source module, t.CompiledOnce m.settings source module ∧ (m.Spared s t.job →
      (files s.surroundings).Contains t.job.output module.code.toUTF8) := by
  have valid := valid_of_reachable reach
  have stored : Stored m files s := stored_of_reachable houses ready spread reach
  have lies : m.destination.Lies t.job.output :=
    spread.lies _ (valid.jobs ▸ List.mem_map_of_mem mem)
  obtain ⟨⟨module, finished⟩, _⟩ := Task.sound_ends (valid.tasks t mem) succeeded
  have written := written_of_finished finished
  obtain ⟨source, _, _, asked, _⟩ := Task.compiledOnce (orderly_of_reachable reach t mem) written
  exact ⟨source, module, asked, contains_of_written houses reach stored mem lies written⟩

theorem stopped_of_failed {early late : List Task} {t : Task} {e : RunError} (alone : m.workers = 1)
    (houses : m.environment.Houses files) (sound : (files start).Sound)
    (once : (files start).NoHardLinks) (receives : (files start).Receives m.destination)
    (opens : (files start).OpensEmpty m.destination)
    (found : Discovery.jobs (files start) roots m.destination m.settings = .ok jobs)
    (reach : m.Reachable jobs start s) (tasks : s.tasks = early ++ t :: late)
    (failed : t.FailedWith e) (quiet : s.Quiet) :
    Stopped m (files start) (files s.surroundings) s early t late e := by
  have valid := valid_of_reachable reach
  have spread : Spread m.destination jobs := spread_of_discovered sound found
  have ready : (files start).Ready m.destination := ⟨sound.tree once, receives⟩
  have beside := beside_of_reachable houses spread ready opens reach
  obtain ⟨succeeded, untouched⟩ := around_failure alone reach tasks failed.1
  have lies {u : Task} (mem : u ∈ s.tasks) : m.destination.Lies u.job.output :=
    spread.lies _ (valid.jobs ▸ List.mem_map_of_mem mem)
  have kept {p : Path} := as_it_was (p := p) beside sound receives spread reach
    (tasks.trans (List.append_cons early t late)) untouched quiet.1
  refine ⟨tasks, failed, ?_, ?_, untouched, quiet, ?_, ?_⟩
  · intro u mem
    have there : u ∈ s.tasks := by simp [tasks, mem]
    obtain ⟨source, module, asked, contains⟩ :=
      delivered_of_succeeded houses ready spread reach there (succeeded u mem)
    exact ⟨source, module, asked, contains (.inl quiet.1)⟩
  · exact compiled_at_most_once (orderly_of_reachable reach t (by simp [tasks])).regular
  · exact kept (lies_graphPath m.destination)
  · intro u mem apart names valid_
    have there : u ∈ s.tasks := by simp [tasks, mem]
    refine kept ((lies there).below valid_) fun v before way => apart v before ?_
    have further : u.job.output.OnTheWay (u.job.output.below names) :=
      ⟨(Path.isAbsolute_below valid_).symm, Path.segmentNames_below valid_ ▸ List.prefix_append _ _⟩
    exact further.trans way

/-- Unless it came upon a name twice, a run with one worker that returns an error has done all its
tasks and failed over the graph, or it has stopped at one of them. Any call on the files may be what
failed, and a write that did may have left anything in its own file. The destination is clean, and is
there or empty when it comes to be. A run whose jobs are not discovered does nothing. -/
theorem stops_at_failure (roots : List Path) (alone : m.workers = 1)
    (houses : m.environment.Houses files) (sound : (files start).Sound)
    (once : (files start).NoHardLinks) (clean : (files start).Clean m.destination)
    (opens : (files start).OpensEmpty m.destination) :
    (∀ jobs s e, Discovery.jobs (files start) roots m.destination m.settings = .ok jobs →
      m.Reachable jobs start s → s.result? = some (.error e) →
        (∀ name, e ≠ .graph (.duplicateModule name)) →
          (∃ fault, e = .graph fault ∧ ∀ t ∈ s.tasks, t.result? = some (.ok ()) ∧
            ∃ source module, t.CompiledOnce m.settings source module ∧
              (t.job.output ≠ graphPath m.destination →
                (files s.surroundings).Contains t.job.output module.code.toUTF8)) ∨
            ∃ early t late, Stopped m (files start) (files s.surroundings) s early t late e) ∧
      ∀ (w : World) e, Discovery.jobs w.files roots m.destination m.settings = .error e →
        (runTree m.settings m.destination roots w).1 = .error (.walk e) ∧
          (runTree m.settings m.destination roots w).2.files = w.files ∧
            (runTree m.settings m.destination roots w).2.calls = w.calls := by
  have receives := opens.receives clean
  constructor
  · intro jobs s e found reach returned other
    have valid := valid_of_reachable reach
    rcases ends_in_error valid returned with ⟨_, broke⟩ | ⟨_, ⟨t, mem, failed⟩, quiet⟩
    · rcases broke with ⟨⟨_, name, same, _⟩, _⟩ | ⟨_, ⟨fault, same, _⟩, _, released⟩
      · exact absurd same (other name)
      · refine .inl ⟨fault, same, fun t mem => ?_⟩
        have succeeded := succeeded_of_released valid (orderly_of_reachable reach) released t mem
        obtain ⟨source, module, asked, contains⟩ := delivered_of_succeeded houses
          ⟨sound.tree once, receives⟩ (spread_of_discovered sound found) reach mem succeeded
        have sited := (Discovery.jobs_ok sound found).1 t.job (valid.jobs ▸ List.mem_map_of_mem mem)
        exact ⟨succeeded, source, module, asked, fun other =>
          contains (spared_of_sited sited fun graph => other graph.2)⟩
    · obtain ⟨early, late, tasks⟩ := List.append_of_mem mem
      exact .inr ⟨early, t, late, stopped_of_failed alone houses sound once receives opens found
        reach tasks failed quiet⟩
  · intro w e failed
    unfold Discovery.jobs at failed
    unfold runTree
    rcases narrated : Discovery.narrated w.files roots m.destination m.settings with ⟨outcome, log⟩
    rw [narrated] at failed
    cases failed
    exact ⟨rfl, rfl, rfl⟩

def threeModules (second : String) : FileSystem where
  nodes := #[.directory 0 [(Text.encode "in", 1), (Text.encode "out", 5)],
    .directory 0 [(Text.encode "a.js", 2), (Text.encode "b.js", 3), (Text.encode "c.js", 4)],
    .file "a".toUTF8, .file second.toUTF8, .file "c".toUTF8,
    .directory 0 [(Text.encode "c.js", 6)], .file "old".toUTF8]
  root := 0
  home := 0

def threeJobs (destination : String) : List Job :=
  [.below "in" "a.js" "a" destination, .below "in" "b.js" "b" destination,
    .below "in" "c.js" "c" destination]

def threeModulesSpoiled : FileSystem where
  nodes := #[.directory 0 [(Text.encode "in", 1), (Text.encode "out", 5)],
    .directory 0 [(Text.encode "a.js", 2), (Text.encode "b.js", 3), (Text.encode "c.js", 4)],
    .file "a".toUTF8, .file "bb".toUTF8, .file "c".toUTF8,
    .directory 0 [(Text.encode "a.js", 7), (Text.encode "b.js", 8), (Text.encode "c.js", 6)],
    .file "old".toUTF8, .file "a".toUTF8, .file "b".toUTF8]
  root := 0
  home := 0

section Sample

variable (second : String)

-- Whether these files are in order does not depend on what is in them.
theorem threeModules_sound : (threeModules second).Sound :=
  sound_of_numbered rfl rfl (of_decide_eq_true rfl)

theorem threeModules_noHardLinks : (threeModules second).NoHardLinks :=
  noHardLinks_of_nodup (of_decide_eq_true rfl)

theorem threeModules_clean : (threeModules second).Clean (.ofString "out") :=
  clean_of_linkless (of_decide_eq_true rfl)

theorem threeModules_opensEmpty : (threeModules second).OpensEmpty (.ofString "out") :=
  opensEmpty_of_level (threeModules_sound second).bounded (by decide +kernel)

end Sample

set_option maxRecDepth 4000 in
theorem threeModules_spoiled :
    runSequentially (.cramped 1 .leaving) {} (.ofString "out") (threeJobs "out")
        (threeModules "bb") =
      (.error (.stream ⟨.file (.ofString "out/b.js"), .writeAll, .other "no space left"⟩),
        threeModulesSpoiled) := by
  cbv

set_option maxRecDepth 4000 in
/-- The second module is rejected, or its output takes only one byte of it. -/
theorem stops_at_second_of_three :
    (∃ s, (refusing ["!"] "out").Reachable (threeJobs "out") (threeModules "!") s ∧
      s.result? = some (.error (.compile (.file (.ofString "in/b.js")) (.rejected "no"))) ∧
      ∃ early t late, Stopped (refusing ["!"] "out") (threeModules "!") s.surroundings s early t
        late (.compile (.file (.ofString "in/b.js")) (.rejected "no"))) ∧
      (∃ s, (cramped 1 {} "out").Reachable (threeJobs "out") (threeModules "bb") s ∧
        s.surroundings.Contains (.ofString "out/b.js") "b".toUTF8 ∧
        ∃ early t late, Stopped (cramped 1 {} "out") (threeModules "bb") s.surroundings s early t
          late (.stream ⟨.file (.ofString "out/b.js"), .writeAll, .other "no space left"⟩)) ∧
      (runTree {} (.ofString "out") [.ofString "in"] (.leaving .empty)).2.files = .empty := by
  have stops := stops_at_failure (m := refusing ["!"] "out") [.ofString "in"] rfl
    (Environment.refusing_houses ["!"]) (threeModules_sound "!") (threeModules_noHardLinks "!")
    (threeModules_clean "!") (threeModules_opensEmpty "!")
  have stops' := stops_at_failure (m := cramped 1 {} "out") [.ofString "in"] rfl
    (Environment.cramped_houses Environment.leaving_houses 1) (threeModules_sound "bb")
    (threeModules_noHardLinks "bb") (threeModules_clean "bb") (threeModules_opensEmpty "bb")
  have found : Discovery.jobs (threeModules "!") [.ofString "in"] (.ofString "out") {} =
      .ok (threeJobs "out") := by cbv
  have found' : Discovery.jobs (threeModules "bb") [.ofString "in"] (.ofString "out") {} =
      .ok (threeJobs "out") := by cbv
  have missing : Discovery.jobs FileSystem.empty [.ofString "in"] (.ofString "out") {} =
      .error ⟨.ofString "in", .stat (some (.ofString "in")) .notFound⟩ := by cbv
  refine ⟨?rejected, ?spoiled, (stops.2 (.leaving .empty) _ missing).2.1⟩
  case rejected =>
    obtain ⟨s, reach, returned, _⟩ :=
      sequential_reachable (refusing ["!"] "out") (threeJobs "out") (threeModules "!")
    have failed : s.result? =
        some (.error (.compile (.file (.ofString "in/b.js")) (.rejected "no"))) := by
      rw [returned]
      cbv
    refine ⟨s, reach, failed, ?_⟩
    rcases stops.1 _ s _ found reach failed (by simp) with ⟨fault, same, _⟩ | stopped
    · cases same
    · exact stopped
  case spoiled =>
    obtain ⟨s, reach, failed, after⟩ :=
      reachable_of_run (m := cramped 1 {} "out") threeModules_spoiled
    refine ⟨s, reach, ?_, ?_⟩
    · rw [after]
      exact ⟨8, by cbv, rfl⟩
    · rcases stops'.1 _ s _ found' reach failed (by simp) with ⟨fault, same, _⟩ | stopped
      · cases same
      · exact stopped

def linkedBesideRefused : FileSystem where
  nodes := #[.directory 0 [(Text.encode "e", 5), (Text.encode "in", 1)],
    .directory 0 [(Text.encode "a.js", 2), (Text.encode "b.js", 3), (Text.encode "c.js", 4)],
    .file "a".toUTF8, .file "b".toUTF8, .file "!".toUTF8,
    .directory 0 [(Text.encode "a.js", 7), (Text.encode "b.js", 6)], .file "old".toUTF8,
    .link (.ofString "b.js")]
  root := 0
  home := 0

def linkedBesideRefusedAfter : FileSystem where
  nodes := #[.directory 0 [(Text.encode "e", 5), (Text.encode "in", 1), (Text.encode "t", 8)],
    .directory 0 [(Text.encode "a.js", 2), (Text.encode "b.js", 3), (Text.encode "c.js", 4)],
    .file "a".toUTF8, .file "b".toUTF8, .file "!".toUTF8,
    .directory 0 [(Text.encode "a.js", 7), (Text.encode "b.js", 6), (Text.encode "c.js", 9)],
    .file "b".toUTF8, .link (.ofString "b.js"), .directory 0 [], .file "".toUTF8]
  root := 0
  home := 0

set_option maxRecDepth 4000 in
theorem linkedBesideRefused_run :
    runSequentially (.refusing ["!"]) {} (.ofString "t/../e") (threeJobs "t/../e")
        linkedBesideRefused =
      (.error (.compile (.file (.ofString "in/c.js")) (.rejected "no")),
        linkedBesideRefusedAfter) := by
  cbv

/-- The third module is rejected, and the first one is nowhere: what its output leads to holds the
second. The destination was missing before the run. -/
theorem first_output_lost_before_refused :
    linkedBesideRefused.Sound ∧ linkedBesideRefused.NoHardLinks ∧
      linkedBesideRefused.pathExists (.ofString "t/../e") = false ∧
      Discovery.jobs linkedBesideRefused [.ofString "in"] (.ofString "t/../e") {} =
        .ok (threeJobs "t/../e") ∧
      ∃ s, (refusing ["!"] "t/../e").Reachable (threeJobs "t/../e") linkedBesideRefused s ∧
        s.result? = some (.error (.compile (.file (.ofString "in/c.js")) (.rejected "no"))) ∧
        ∃ t ∈ s.tasks, t.job = .below "in" "a.js" "a" "t/../e" ∧
          (∃ id, s.surroundings.resolve t.job.output = .ok id ∧
            s.surroundings.node? id = some (.file "b".toUTF8)) ∧
          (∃ id, s.surroundings.resolve t.job.input = .ok id ∧
            s.surroundings.node? id = some (.file "a".toUTF8)) ∧
          ∀ bytes, ¬s.surroundings.Contains t.job.output bytes := by
  obtain ⟨s, reach, failed, after⟩ :=
    reachable_of_run (m := refusing ["!"] "t/../e") linkedBesideRefused_run
  have first : .below "in" "a.js" "a" "t/../e" ∈ s.tasks.map Task.job := by
    simp [(valid_of_reachable reach).jobs, threeJobs]
  obtain ⟨t, mem, job⟩ := List.mem_map.mp first
  refine ⟨FileSystem.sound_of_numbered (by decide) (by decide) (by decide +kernel),
    FileSystem.noHardLinks_of_nodup (by decide +kernel), by cbv, by cbv, s, reach, failed, t, mem,
    job, ?_⟩
  rw [job, after]
  refine ⟨⟨6, by cbv, rfl⟩, ⟨2, by cbv, rfl⟩, ?_⟩
  rintro bytes ⟨id, leads, file⟩
  have link : id = 7 := Except.ok.inj (leads.symm.trans (by cbv))
  subst link
  cases file

end Setup

end ModuleTree
