import ModuleTree.Proofs.Run.Delivery
/- The sources of a run. A file that no job takes for its output stays as it was until all jobs
   are done, so whoever reads it reads what it held when the run began. -/
namespace ModuleTree

variable {σ : Type}

theorem FileSystem.Answers.readNode {fs fs' : FileSystem} {id : NodeId} {bytes : ByteArray}
    (h : fs.Answers ⟨.readFile id, .ok bytes⟩ fs') : fs.readNode id = .ok bytes := by
  cases h with
  | readFile read => exact read

theorem FileSystem.Answers.noted {fs fs' : FileSystem} {x : Exchange} {notice : Notice}
    (h : fs.Answers x fs') (noted : x.call = .note notice) : fs' = fs := by
  cases h with
  | note => rfl
  | makeDirectory | createFile | writeFile | spoiled => cases noted
  | _ => rfl

theorem file_untaken {fs fs' : FileSystem} {settings : Settings} {job : Job} {t : Transcript}
    {x : Exchange} {id : NodeId} {content : ByteArray} (answers : fs.Answers x fs')
    (permits : job.Permits settings t x.call)
    (untaken : ⟨.createFile job.output, .ok id⟩ ∉ t ++ [x])
    (here : fs.node? id = some (.file content)) : fs'.node? id = some (.file content) := by
  apply FileSystem.file_kept answers here
  · intro p other same taken
    subst same taken
    have output : p = job.output := permits.grounds
    subst output
    exact untaken (by simp)
  · intro file bytes same taken
    subst taken
    have grounds := permits.grounds
    rw [same] at grounds
    exact untaken (List.mem_append_left [x] grounds.1)

namespace Setup
open Run

variable {m : Setup σ} {jobs : List Job} {start : σ} {s s' : Run σ} {files : σ → FileSystem}
  {roots : List Path} {summary : Summary} {id : NodeId} {content : ByteArray}

def Untaken (s : Run σ) (id : NodeId) : Prop :=
  ∀ record ∈ s.records, ⟨.createFile record.1.output, .ok id⟩ ∉ record.2

/-- A file as it was, and all that has been read of it. -/
structure Unchanged (files : σ → FileSystem) (s : Run σ) (id : NodeId) (content : ByteArray) :
    Prop where
  still : s.flushes = 0 → (files s.surroundings).node? id = some (.file content)
  read : ∀ record ∈ s.records, ∀ bytes, ⟨.readFile id, .ok bytes⟩ ∈ record.2 → bytes = content

theorem step_unchanged (houses : m.environment.Houses files) (reach : m.Reachable jobs start s)
    (step : m.Step s s') (unchanged : Untaken s id → Unchanged files s id content)
    (untaken : Untaken s' id) : Unchanged files s' id content := by
  cases moves_of_step houses reach step with
  | still same records _ begun =>
    rw [Untaken, records] at untaken
    obtain ⟨still, read⟩ := unchanged untaken
    constructor
    · intro none
      rw [same]
      exact still (by omega)
    · rwa [records]
  | @job before after job t x old new answers permits _ unbegun _ =>
    rw [Untaken, new] at untaken
    have own : ⟨.createFile job.output, .ok id⟩ ∉ t ++ [x] := untaken (job, t ++ [x]) (by simp)
    have earlier : Untaken s id := by
      rw [Untaken, old]
      exact forall_replaced untaken fun taken => own (List.mem_append_left [x] taken)
    obtain ⟨still, read⟩ := unchanged earlier
    have here := still unbegun
    constructor
    · exact fun _ => file_untaken answers permits own here
    · rw [old] at read
      rw [new]
      apply forall_replaced read
      intro bytes there
      rcases List.mem_append.mp there with past | last
      · exact read (job, t) (by simp) bytes past
      · cases List.mem_singleton.mp last
        have told := answers.readNode
        rw [FileSystem.readNode, here] at told
        exact (Except.ok.inj told).symm
  | @listener x records answers _ _ begun late =>
    rw [Untaken, records] at untaken
    obtain ⟨still, read⟩ := unchanged untaken
    constructor
    · intro none
      rw [begun] at none
      -- Until the graph is begun, the listener has only left notices.
      obtain ⟨notice, noted⟩ := late none
      rw [answers.noted noted]
      exact still none
    · rwa [records]

theorem unchanged_of_reachable (houses : m.environment.Houses files)
    (here : (files start).node? id = some (.file content)) (reach : m.Reachable jobs start s)
    (untaken : Untaken s id) : Unchanged files s id content := by
  induction reach with
  | start =>
    constructor
    · exact fun _ => here
    intro record mem bytes read
    rw [records_of_begin record mem] at read
    cases read
  | step reach step ih => exact step_unchanged houses reach step ih untaken

theorem resolve_of_read (houses : m.environment.Houses files) (reach : m.Reachable jobs start s)
    {t : Task} (mem : t ∈ s.tasks) (sited : t.job.Sited (files start) m.destination)
    {file : NodeId} {bytes : ByteArray} (read : ⟨.readFile file, .ok bytes⟩ ∈ t.transcript) :
    (files start).resolve t.job.input = .ok file ∧
      ∃ content, (files start).node? file = some (.file content) := by
  have record : (t.job, t.transcript) ∈ s.records := List.mem_map_of_mem mem
  have opened : ⟨.openFile t.job.input, .ok file⟩ ∈ t.transcript :=
    grounds_of_regular (orderly_of_reachable reach t mem).regular _ read
  have placed : (files s.surroundings).resolve t.job.input = .ok file :=
    (placed_of_reachable houses reach).1 _ record _ opened
  obtain ⟨id, content, here, leads⟩ := sited.input
  have first := leads (FileSystem.usable_of_resolve placed)
  have still := (grows_of_reachable houses reach).resolve first
  cases still.symm.trans placed
  exact ⟨first, content, here⟩

theorem read_as_it_was (houses : m.environment.Houses files) (reach : m.Reachable jobs start s)
    {t : Task} (mem : t ∈ s.tasks) (sited : t.job.Sited (files start) m.destination)
    {file : NodeId} {bytes : ByteArray} (read : ⟨.readFile file, .ok bytes⟩ ∈ t.transcript)
    (untaken : Untaken s file) : (files start).resolve t.job.input = .ok file ∧
      (files start).node? file = some (.file bytes) := by
  obtain ⟨leads, content, here⟩ := resolve_of_read houses reach mem sited read
  have record : (t.job, t.transcript) ∈ s.records := List.mem_map_of_mem mem
  have same := (unchanged_of_reachable houses here reach untaken).read _ record bytes read
  exact ⟨leads, same ▸ here⟩

theorem untaken_of_apart (houses : m.environment.Houses files) (reach : m.Reachable jobs start s)
    {p : Path} (leads : (files start).resolve p = .ok id)
    (apart : ∀ u ∈ s.tasks, ¬(files s.surroundings).SameFile u.job.output p) : Untaken s id := by
  intro record mem taken
  obtain ⟨u, there, same⟩ := mem_records mem
  have placed : (files s.surroundings).resolve record.1.output = .ok id :=
    (placed_of_reachable houses reach).1 _ mem _ taken
  subst same
  exact apart u there ⟨id, placed, (grows_of_reachable houses reach).resolve leads⟩

/-- A run that returns well has shown the compiler each source as it was when the run began,
unless an output has turned out to be the file that the source comes from. -/
theorem source_as_it_was (houses : m.environment.Houses files) (sound : (files start).Sound)
    (found : Discovery.jobs (files start) roots m.destination m.settings = .ok jobs)
    (reach : m.Reachable jobs start s) (returned : s.result? = some (.ok summary)) {t : Task}
    (mem : t ∈ s.tasks)
    (apart : ∀ u ∈ s.tasks, ¬(files s.surroundings).SameFile u.job.output t.job.input) :
    ∃ id content source module, (files start).resolve t.job.input = .ok id ∧
      (files start).node? id = some (.file content) ∧ String.fromUTF8? content = some source ∧
        t.CompiledOnce m.settings source module := by
  have job : t.job ∈ jobs := (valid_of_reachable reach).jobs ▸ List.mem_map_of_mem mem
  have sited := (Discovery.jobs_ok sound found).1 t.job job
  obtain ⟨source, id, bytes, module, asked, read, text, _⟩ := delivered_of_ok reach returned mem
  have leads := (resolve_of_read houses reach mem sited read).1
  have untaken := untaken_of_apart houses reach leads apart
  have here := (read_as_it_was houses reach mem sited read untaken).2
  exact ⟨id, bytes, source, module, leads, here, text, asked⟩

def nestedNames : FileSystem where
  nodes := #[.directory 0 [(Text.encode "r", 1)],
    .directory 0 [(Text.encode "a.js", 2), (Text.encode "s", 3)], .file "new".toUTF8,
    .directory 1 [(Text.encode "a.js", 4)], .file "old".toUTF8]
  root := 0
  home := 0

def nestedJobs : List Job := [.below "r" "a.js" "a" "r/s", .below "r" "s/a.js" "s/a" "r/s"]

def nestedAfter : FileSystem where
  nodes := #[.directory 0 [(Text.encode "r", 1)],
    .directory 0 [(Text.encode "a.js", 2), (Text.encode "s", 3)], .file "new".toUTF8,
    .directory 1 [(Text.encode "a.js", 4), (Text.encode "s", 5)], .file "new".toUTF8,
    .directory 3 [(Text.encode "a.js", 6)], .file "new".toUTF8]
  root := 0
  home := 0

theorem nestedNames_sound : nestedNames.Sound :=
  FileSystem.sound_of_numbered (by decide) (by decide) (by decide +kernel)

theorem nestedNames_jobs :
    Discovery.jobs nestedNames [.ofString "r"] (.ofString "r/s") {} = .ok nestedJobs := by
  cbv

set_option maxRecDepth 4000 in
theorem nestedNames_run : runSequentially .leaving {} (.ofString "r/s") nestedJobs nestedNames =
    (.ok ⟨2, none⟩, nestedAfter) := by
  cbv

theorem outer_source_as_it_was :
    ∃ s : Run FileSystem, s.result? = some (.ok ⟨2, none⟩) ∧ ∃ t ∈ s.tasks,
      t.job = .below "r" "a.js" "a" "r/s" ∧ ∃ id content source module,
        nestedNames.resolve t.job.input = .ok id ∧
          nestedNames.node? id = some (.file content) ∧
            String.fromUTF8? content = some source ∧ t.CompiledOnce {} source module := by
  obtain ⟨s, reach, well, files⟩ := reachable_of_run (m := leaving {} "r/s" 0) nestedNames_run
  have jobs : s.tasks.map Task.job = nestedJobs := (valid_of_reachable reach).jobs
  have outer : .below "r" "a.js" "a" "r/s" ∈ s.tasks.map Task.job := by simp [jobs, nestedJobs]
  obtain ⟨t, mem, job⟩ := List.mem_map.mp outer
  refine ⟨s, well, t, mem, job, source_as_it_was (m := leaving {} "r/s" 0)
    Environment.leaving_houses nestedNames_sound nestedNames_jobs reach well mem ?_⟩
  rintro u other ⟨id, output, input⟩
  rw [id_eq, files] at output input
  have read : nestedAfter.resolve t.job.input = .ok 2 := by
    rw [job]
    cbv
  cases read.symm.trans input
  have one : u.job ∈ nestedJobs := jobs ▸ List.mem_map_of_mem other
  rcases List.mem_cons.mp one with same | same
  · have written : nestedAfter.resolve u.job.output = .ok 4 := by
      rw [same]
      cbv
    cases written.symm.trans output
  · have written : nestedAfter.resolve u.job.output = .ok 6 := by
      rw [List.mem_singleton.mp same]
      cbv
    cases written.symm.trans output

/-- A destination below a root: the job of `r/a.js` writes `r/s/a.js` before the job of
`r/s/a.js` reads it. -/
theorem source_written_before_it_is_read :
    nestedNames.Sound ∧ nestedNames.NoHardLinks ∧
      Discovery.jobs nestedNames [.ofString "r"] (.ofString "r/s") {} = .ok nestedJobs ∧
      ∃ s, (leaving {} "r/s" 0).Reachable nestedJobs nestedNames s ∧
        s.result? = some (.ok ⟨2, none⟩) ∧ ∃ t ∈ s.tasks,
          (∃ id, nestedNames.resolve t.job.input = .ok id ∧
            nestedNames.node? id = some (.file "old".toUTF8)) ∧
          ∃ module, t.CompiledOnce {} "new" module := by
  have once : nestedNames.NoHardLinks := FileSystem.noHardLinks_of_nodup (by decide +kernel)
  have tree := nestedNames_sound.tree once
  have clean : nestedNames.Clean (.ofString "r/s") :=
    FileSystem.clean_of_linkless (by decide +kernel)
  have receives := FileSystem.receives_of_level tree clean (by decide +kernel)
  have spread := spread_of_discovered nestedNames_sound nestedNames_jobs
  obtain ⟨s, reach, well, files⟩ := reachable_of_run (m := leaving {} "r/s" 0) nestedNames_run
  have jobs : s.tasks.map Task.job = nestedJobs := (valid_of_reachable reach).jobs
  have inner : .below "r" "s/a.js" "s/a" "r/s" ∈ s.tasks.map Task.job := by
    simp [jobs, nestedJobs]
  obtain ⟨t, mem, job⟩ := List.mem_map.mp inner
  obtain ⟨source, _, _, module, asked, _, _, written⟩ := delivered_of_ok reach well mem
  -- What was compiled shows in the output, for the compiler has left it as it was.
  have stored := stored_of_reachable (m := leaving {} "r/s" 0) Environment.leaving_houses
    ⟨tree, receives⟩ spread reach
  have lies := spread.lies t.job (jobs ▸ List.mem_map_of_mem mem)
  obtain ⟨id, leads, holds⟩ := contains_of_written Environment.leaving_houses reach stored mem
    lies written (.inr (.inl rfl))
  rw [id_eq, files] at leads holds
  have output : nestedAfter.resolveLink t.job.output = .ok 6 := by
    rw [job]
    cbv
  cases output.symm.trans leads
  have text : module.code.toUTF8 = "new".toUTF8 :=
    (Node.file.inj (Option.some.inj holds)).symm
  have same : source = "new" :=
    (module_of_leaving reach mem asked).symm.trans (String.toByteArray_inj.mp text)
  refine ⟨nestedNames_sound, once, nestedNames_jobs, s, reach, well, t, mem, ⟨4, ?_, rfl⟩,
    module, same ▸ asked⟩
  rw [job]
  cbv

end Setup

end ModuleTree
