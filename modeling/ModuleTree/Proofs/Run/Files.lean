import ModuleTree.Proofs.FileSystem.Operations
import ModuleTree.Proofs.Run.JobCalls
import ModuleTree.Proofs.Run.Outcome
/- The files of a run. Each step puts at most one call to them, and each call is one of a job in
   its turn or one of writing the graph, after all jobs are done. -/
namespace ModuleTree

variable {σ : Type}

/-- An exchange as these files have it, and the files after it. Any call may fail, for a reason that
the files do not show, where one that only looks answers no. Then they stay as they are, but a write
may have left anything in its file. -/
inductive FileSystem.Answers (fs : FileSystem) : Exchange → FileSystem → Prop where
  | pathExists (p : Path) : Answers fs ⟨.pathExists p, fs.pathExists p⟩ fs
  | unseen (p : Path) : Answers fs ⟨.pathExists p, false⟩ fs
  | isDirectory (p : Path) : Answers fs ⟨.isDirectory p, fs.isDirectory p⟩ fs
  | unlisted (p : Path) : Answers fs ⟨.isDirectory p, false⟩ fs
  | makeDirectory {p : Path} {fs' : FileSystem} (made : fs.makeDirectory p = .ok fs') :
      Answers fs ⟨.makeDirectory p, .ok ()⟩ fs'
  | notMade (p : Path) (e : IoError) : Answers fs ⟨.makeDirectory p, .error e⟩ fs
  | openFile {p : Path} {id : NodeId} (opened : fs.openFile p = .ok id) :
      Answers fs ⟨.openFile p, .ok id⟩ fs
  | notOpened (p : Path) (e : IoError) : Answers fs ⟨.openFile p, .error e⟩ fs
  | createFile {p : Path} {id : NodeId} {fs' : FileSystem}
      (created : fs.createFile p = .ok (id, fs')) : Answers fs ⟨.createFile p, .ok id⟩ fs'
  | notCreated (p : Path) (e : IoError) : Answers fs ⟨.createFile p, .error e⟩ fs
  | readFile {file : NodeId} {bytes : ByteArray} (read : fs.readNode file = .ok bytes) :
      Answers fs ⟨.readFile file, .ok bytes⟩ fs
  | notRead (file : NodeId) (e : IoError) : Answers fs ⟨.readFile file, .error e⟩ fs
  | writeFile (file : NodeId) (bytes : ByteArray) :
      Answers fs ⟨.writeFile file bytes, .ok ()⟩ (fs.writeNode file bytes)
  | notWritten (file : NodeId) (bytes : ByteArray) (e : IoError) :
      Answers fs ⟨.writeFile file bytes, .error e⟩ fs
  | spoiled {file : NodeId} {before : ByteArray} (here : fs.node? file = some (.file before))
      (bytes after : ByteArray) (e : IoError) :
      Answers fs ⟨.writeFile file bytes, .error e⟩ (fs.setNode file (.file after))
  | compile (request : Request) (answer : Except CompileError Compiled) :
      Answers fs ⟨.compile request, answer⟩ fs
  | report (event : Event) (answer : Bool) : Answers fs ⟨.report event, answer⟩ fs
  | note (notice : Notice) : Answers fs ⟨.note notice, ()⟩ fs

/-- Surroundings with these files in them, which nothing but the calls of the run changes. -/
def Environment.Houses (answer : Environment σ) (files : σ → FileSystem) : Prop :=
  ∀ call w, (files w).Answers ⟨call, (answer call w).1⟩ (files (answer call w).2)

/-- An exchange that fails only if these files could not have it succeed, and sees no path missing
that is there. -/
structure FileSystem.Excuses (fs : FileSystem) (x : Exchange) : Prop where
  failed : x.Fails → ∀ reply fs', fs.Answers ⟨x.call, reply⟩ fs' → Exchange.Fails ⟨x.call, reply⟩
  unseen : ∀ p, x = ⟨.pathExists p, false⟩ → fs.pathExists p = false

/-- Surroundings where no call fails without an excuse. -/
def Environment.Willing (answer : Environment σ) (files : σ → FileSystem) : Prop :=
  ∀ call w, (files w).Excuses ⟨call, (answer call w).1⟩

theorem World.answer_houses : Environment.Houses World.answer World.files := by
  intro call w
  cases call with
  | pathExists p => exact .pathExists p
  | isDirectory p => exact .isDirectory p
  | makeDirectory p =>
    simp only [World.answer]
    cases made : w.files.makeDirectory p with
    | error e => exact .notMade p e
    | ok fs' => exact .makeDirectory made
  | openFile p =>
    simp only [World.answer]
    cases opened : w.files.openFile p with
    | error e => exact .notOpened p e
    | ok id => exact .openFile opened
  | createFile p =>
    simp only [World.answer]
    cases created : w.files.createFile p with
    | error e => exact .notCreated p e
    | ok outcome => exact .createFile created
  | readFile file =>
    simp only [World.answer]
    cases read : w.files.readNode file with
    | error e => exact .notRead file e
    | ok bytes => exact .readFile read
  | writeFile file bytes => exact .writeFile file bytes
  | compile request => exact .compile request _
  | report event => exact .report event _
  | note notice => exact .note notice

theorem World.answer_willing : Environment.Willing World.answer World.files := by
  intro call w
  constructor
  · intro fails reply fs' answers
    cases answers with
    | makeDirectory made =>
      simp only [World.answer, World.changing, made, Except.map] at fails
      cases fails
    | openFile opened =>
      simp only [World.answer, opened] at fails
      cases fails
    | createFile created =>
      simp only [World.answer, World.changing, created] at fails
      cases fails
    | readFile read =>
      simp only [World.answer, read] at fails
      cases fails
    | writeFile => cases fails
    | notMade p e => exact .makeDirectory p e
    | notOpened p e => exact .openFile p e
    | notCreated p e => exact .createFile p e
    | notRead file e => exact .readFile file e
    | notWritten file bytes e | spoiled _ bytes _ e => exact .writeFile _ bytes e
    | _ => exact nomatch fails
  · intro p missing
    cases call with
    | pathExists q =>
      obtain ⟨same, seen⟩ := Exchange.mk.inj missing
      cases same
      exact eq_of_heq seen
    | _ => exact nomatch missing

theorem FileSystem.excuses_report (fs : FileSystem) (event : Event) (answer : Bool) :
    fs.Excuses ⟨.report event, answer⟩ :=
  ⟨nofun, nofun⟩

theorem FileSystem.Answers.changes {fs fs' : FileSystem} {x : Exchange} (h : fs.Answers x fs') :
    fs' = fs ∨ fs.Changes fs' := by
  cases h with
  | makeDirectory made => exact .inr (makeDirectory_changes made)
  | createFile created => exact createFile_changes created
  | writeFile file bytes => exact writeNode_changes fs file bytes
  | spoiled here _ after => exact .inr (.write here after)
  | _ => exact .inl rfl

theorem FileSystem.Answers.grows {fs fs' : FileSystem} {x : Exchange} (h : fs.Answers x fs') :
    fs.Grows fs' := grows_of_changes h.changes

namespace FileSystem

theorem file_kept {fs fs' : FileSystem} {id : NodeId} {x : Exchange} {content : ByteArray}
    (answers : fs.Answers x fs') (here : fs.node? id = some (.file content))
    (elsewhere : ∀ p other, x = ⟨.createFile p, .ok other⟩ → other ≠ id)
    (unwritten : ∀ file bytes, x.call = .writeFile file bytes → file ≠ id) :
    fs'.node? id = some (.file content) := by
  have beside {directory : NodeId} {lastLink slashed : Bool} {p : Path} {segments : List Segment}
      {name : Bytes} {node : Node} (gap : fs.follow lastLink linkLimit (fs.start p) segments =
        .ok (.gap directory name slashed)) :
      (fs.addNode directory name node).2.node? id = some (.file content) := by
    obtain ⟨_, _, _, _, _, parent, entries, open_, _⟩ := gap_of_follow gap
    have inside := lt_size_of_node? here
    have differ : id ≠ directory := by
      intro same
      rw [same, open_.node] at here
      cases here
    rw [node?_addNode open_.node, if_neg differ, if_neg (Nat.ne_of_lt inside), here]
  have apart {other : NodeId} {node : Node} (differ : other ≠ id) :
      (fs.setNode other node).node? id = some (.file content) := by
    rw [node?_setNode, if_neg fun h => differ h.1, here]
  cases answers with
  | makeDirectory made =>
    obtain ⟨directory, name, slashed, gap, same⟩ := makeDirectory_ok made
    exact same ▸ beside gap
  | createFile created =>
    obtain ⟨_, _, ⟨directory, name, gap, same⟩ | ⟨_, ⟨_, _, same⟩ | ⟨same, _⟩⟩⟩ :=
      createFile_ok created
    · have added : (fs.addNode directory name (.file .empty)).2.node? id =
          some (.file content) := beside gap
      rwa [← same] at added
    · exact same ▸ apart (elsewhere _ _ rfl)
    · exact same ▸ here
  | writeFile file bytes =>
    rcases writeNode_cases fs file bytes with ⟨_, _, same⟩ | ⟨_, same⟩
    · rw [same]
      exact apart (unwritten file bytes rfl)
    · rw [same]
      exact here
  | spoiled _ bytes => exact apart (unwritten _ bytes rfl)
  | _ => exact here

end FileSystem

def FlushGrounds (settings : Settings) (destination : Path) (t : Transcript) : Call → Prop
  | .makeDirectory p => p ∈ destination.chain
  | .createFile p => settings.graph ∧ p = graphPath destination
  | .writeFile file _ => settings.graph ∧ ⟨.createFile (graphPath destination), .ok file⟩ ∈ t
  | .pathExists _ | .isDirectory _ | .note _ => True
  | .openFile _ | .readFile _ | .compile _ | .report _ => False

def FlushGrounded (settings : Settings) (destination : Path) (t : Transcript) : Prop :=
  ∀ x ∈ t, FlushGrounds settings destination t x.call

theorem mem_front {t : Transcript} {x y : Exchange} (mem : y ∈ t ++ [x]) (other : y ≠ x) : y ∈ t :=
  (List.mem_append.mp mem).resolve_right fun last => other (List.mem_singleton.mp last)

section Flush
open Procedure

variable {settings : Settings} {destination : Path} {t t' : Transcript}

theorem flushGrounds_mono {c : Call} (h : FlushGrounds settings destination t c) (more : t ⊆ t') :
    FlushGrounds settings destination t' c := by
  cases c with
  | writeFile file bytes => exact ⟨h.1, more h.2⟩
  | _ => exact h

theorem flushGrounded_concat {x : Exchange} (h : FlushGrounded settings destination t)
    (grounds : FlushGrounds settings destination t x.call) :
    FlushGrounded settings destination (t ++ [x]) :=
  forall_concat (fun y old => flushGrounds_mono (h y old) (List.subset_append_left t [x]))
    (flushGrounds_mono grounds (List.subset_append_left t [x]))

theorem flushGrounds_of_concat {x : Exchange} (h : FlushGrounded settings destination (t ++ [x])) :
    FlushGrounds settings destination t x.call := by
  have here := h x (by simp)
  obtain ⟨call, answer⟩ := x
  cases call with
  | writeFile file bytes =>
    exact ⟨here.1, mem_front here.2 (by simp)⟩
  | _ => exact here

theorem flush_grounded (a : Aggregator) (wanted : a.accumulator.graph.isSome → settings.graph)
    (h : FlushGrounded settings a.destination t) :
    Keeps (FlushGrounded settings a.destination) (fun _ _ => True) t a.flush := by
  unfold Aggregator.flush Accumulator.flush
  cases collected : a.accumulator.graph with
  | none => trivial
  | some g =>
    have graph : settings.graph := wanted (by rw [collected]; rfl)
    have made : Keeps (FlushGrounded settings a.destination)
        (Made (FlushGrounded settings a.destination)) t
        (ensureDirectory a.destination) := by
      refine ensureChain_keeps (fun t x grounded plain within => ?_) h
      obtain ⟨call, answer⟩ := x
      refine flushGrounded_concat grounded ?_
      cases call with
      | makeDirectory p => exact (within p rfl).1
      | pathExists | isDirectory | note => trivial
      | _ => cases plain
    refine keeps_bind (keeps_bind_of made fun t₁ outcome _ made => ?_)
    cases outcome with
    | error e => trivial
    | ok _ =>
      refine keeps_bind (keeps_call fun created => ?_)
      have after := flushGrounded_concat
        (x := ⟨.createFile (graphPath a.destination), created⟩) made.1 ⟨graph, rfl⟩
      refine ⟨after, ?_⟩
      cases created with
      | error e => trivial
      | ok file =>
        refine keeps_bind (keeps_call fun written => ?_)
        have file_ : FlushGrounds settings a.destination
            (t₁ ++ [⟨.createFile (graphPath a.destination), .ok file⟩])
            (.writeFile file (Accumulator.fileText g).toUTF8) :=
          ⟨graph, List.mem_append_right _ (by simp)⟩
        have after := flushGrounded_concat (x := ⟨.writeFile file _, written⟩) after file_
        refine ⟨after, ?_⟩
        cases written with
        | error e => trivial
        | ok _ =>
          refine keeps_bind (keeps_call fun answer => ?_)
          exact ⟨flushGrounded_concat (x := ⟨.note _, answer⟩) after trivial, trivial⟩

end Flush

namespace Run

def records (s : Run σ) : List (Job × Transcript) := s.tasks.map fun t => (t.job, t.transcript)

/-- What a step of a run is to the files: nothing, a call of one job, or a call of the
listener. -/
inductive Moves (m : Setup σ) (files : σ → FileSystem) (s s' : Run σ) : Prop where
  | still (files : files s'.surroundings = files s.surroundings) (records : s'.records = s.records)
      (minutes : s'.minutes = s.minutes) (begun : s.flushes ≤ s'.flushes)
  | job {before after : List (Job × Transcript)} {job : Job} {t : Transcript} {x : Exchange}
      (old : s.records = before ++ (job, t) :: after)
      (new : s'.records = before ++ (job, t ++ [x]) :: after)
      (answers : (files s.surroundings).Answers x (files s'.surroundings))
      (permits : job.Permits m.settings t x.call) (minutes : s'.minutes = s.minutes)
      (unbegun : s.flushes = 0) (begun : s'.flushes = 0)
      (excused : m.environment.Willing files → (files s.surroundings).Excuses x)
  | listener {x : Exchange} (records : s'.records = s.records)
      (answers : (files s.surroundings).Answers x (files s'.surroundings))
      (minutes : s'.minutes = s.minutes ++ [x])
      (grounds : FlushGrounds m.settings m.destination s.minutes x.call)
      (begun : s'.flushes = s.flushes) (late : s.flushes = 0 → ∃ notice, x.call = .note notice)
      (excused : m.environment.Willing files → (files s.surroundings).Excuses x)

structure Minuted (m : Setup σ) (s : Run σ) : Prop where
  minutes : FlushGrounded m.settings m.destination s.minutes
  rest : ∀ a rest, s.listener = .flushing a rest →
    Procedure.Keeps (FlushGrounded m.settings m.destination) (fun _ _ => True) s.minutes rest

end Run

namespace Setup
open Run

variable {m : Setup σ} {jobs : List Job} {start : σ} {s s' : Run σ} {files : σ → FileSystem}

theorem flushGrounded_of_noted {t : Transcript} (h : Noted t) :
    FlushGrounded m.settings m.destination t := by
  intro x mem
  obtain ⟨notice, same⟩ := h x mem
  rw [same]
  trivial

theorem kept_in_minutes {inv : Transcript → Prop} (noted : ∀ t, Noted t → inv t)
    (flush : ∀ a : Aggregator, a.destination = m.destination →
      (a.accumulator.graph.isSome → m.settings.graph) → ∀ t, Noted t →
        Procedure.Keeps inv (fun _ _ => True) t a.flush) (reach : m.Reachable jobs start s) :
    inv s.minutes ∧ ∀ a rest, s.listener = .flushing a rest →
      Procedure.Keeps inv (fun _ _ => True) s.minutes rest := by
  induction reach with
  | start => exact ⟨noted [] (by simp [Noted]), fun a rest there => by cases there⟩
  | @step s s' reach step ih =>
    have valid := valid_of_reachable reach
    cases step with
    | take | work | send | refuse | leave => exact ih
    | judge at_ =>
      obtain ⟨_, keeps⟩ := valid.judging at_
      exact ⟨noted _ (keeps _).1, fun a rest there => by cases there⟩
    | @follow verdict at_ =>
      rcases verdict with e | (a | a)
      · exact ⟨ih.1, fun a rest there => by cases there⟩
      · exact ⟨ih.1, fun a rest there => by cases there⟩
      · obtain ⟨quiet, _, judged⟩ := valid.judging at_
        refine ⟨ih.1, fun b rest there => ?_⟩
        cases there
        exact flush a judged.1.destination judged.1.graph_wanted.mp _ quiet.2
    | write at_ =>
      have keeps := ih.2 _ _ at_
      refine ⟨(keeps _).1, fun a rest there => ?_⟩
      cases there
      exact (keeps _).2
    | @flushed a outcome at_ =>
      cases outcome with
      | error e => exact ⟨ih.1, fun a rest there => by cases there⟩
      | ok b => exact ⟨ih.1, fun a rest there => by cases there⟩
    | hear | close => exact ⟨ih.1, fun a rest there => by cases there⟩

theorem minuted_of_reachable (reach : m.Reachable jobs start s) : s.Minuted m := by
  obtain ⟨minutes, rest⟩ := kept_in_minutes (fun _ => flushGrounded_of_noted (m := m))
    (fun a destination wanted t noted => destination ▸ flush_grounded a wanted
      (destination.symm ▸ flushGrounded_of_noted noted)) reach
  exact ⟨minutes, rest⟩

theorem unbegun_of_asking {before after : List Task} {t : Task} {call : Call}
    {next : call.Answer → Procedure (Except RunError Unit)} (valid : s.Valid m jobs)
    (orderly : ∀ t ∈ s.tasks, t.Orderly m.settings) (tasks : s.tasks = before ++ t :: after)
    (rest : t.rest = .ask call next) : s.flushes = 0 := by
  rcases quiet_or_released valid with quiet | ⟨_, released⟩
  · exact quiet.1
  · have done := succeeded_of_released valid orderly released t (by simp [tasks])
    simp [Task.result?, rest] at done

theorem records_at {before after : List Task} {t : Task} (tasks : s.tasks = before ++ t :: after) :
    s.records = before.map (fun u => (u.job, u.transcript)) ++
      (t.job, t.transcript) :: after.map fun u => (u.job, u.transcript) := by
  simp [records, tasks]

theorem moves_of_step (houses : m.environment.Houses files) (reach : m.Reachable jobs start s)
    (step : m.Step s s') : s.Moves m files s' := by
  have valid := valid_of_reachable reach
  have orderly := orderly_of_reachable reach
  have minuted := minuted_of_reachable reach
  cases step with
  | take tasks => exact .still rfl (by simp [records, tasks]) rfl (Nat.le_refl _)
  | leave | hear | close => exact .still rfl rfl rfl (Nat.le_refl _)
  | @work before after t call next tasks started rest =>
    have unbegun := unbegun_of_asking valid orderly tasks rest
    refine .job (records_at tasks) (records_at (t := t.answered call _ next) rfl)
      (houses call s.surroundings) ?_ rfl unbegun unbegun
      fun willing => willing call s.surroundings
    exact Task.permits_of_ask (orderly t (by simp [tasks])) rest
        (m.environment call s.surroundings).1
  | @send before after t event next tasks started rest =>
    have unbegun := unbegun_of_asking valid orderly tasks rest
    refine .job (records_at tasks) (records_at (t := t.answered (.report event) true next) rfl)
      (.report event true) ?_ rfl unbegun unbegun fun _ => FileSystem.excuses_report _ _ _
    exact Task.permits_of_ask (orderly t (by simp [tasks])) rest true
  | @refuse before after t event next outcome tasks started rest =>
    have unbegun := unbegun_of_asking valid orderly tasks rest
    refine .job (records_at tasks) (records_at (t := t.answered (.report event) false next) rfl)
      (.report event false) ?_ rfl unbegun unbegun fun _ => FileSystem.excuses_report _ _ _
    exact Task.permits_of_ask (orderly t (by simp [tasks])) rest false
  | @judge call next at_ =>
    obtain ⟨_, keeps⟩ := valid.judging at_
    have noted := (keeps (m.environment call s.surroundings).1).1
    have grounds := flushGrounds_of_concat (flushGrounded_of_noted (m := m) noted)
    exact .listener rfl (houses call s.surroundings) rfl grounds rfl
      (fun _ => noted _ (List.mem_append_right _ List.mem_cons_self))
      fun willing => willing call s.surroundings
  | @follow verdict at_ =>
    rcases verdict with e | (a | a)
    · exact .still rfl rfl rfl (Nat.le_refl _)
    · exact .still rfl rfl rfl (Nat.le_refl _)
    · exact .still rfl rfl rfl (Nat.le_succ _)
  | @write a call next at_ =>
    have flushes := (valid.flushing at_).1
    have keeps := minuted.rest _ _ at_ (m.environment call s.surroundings).1
    have grounds := flushGrounds_of_concat keeps.1
    exact .listener rfl (houses call s.surroundings) rfl grounds rfl (fun none => by omega)
      fun willing => willing call s.surroundings
  | @flushed a outcome at_ =>
    cases outcome with
    | error e => exact .still rfl rfl rfl (Nat.le_refl _)
    | ok b => exact .still rfl rfl rfl (Nat.le_refl _)

theorem mem_records {record : Job × Transcript} (mem : record ∈ s.records) :
    ∃ t ∈ s.tasks, (t.job, t.transcript) = record := List.mem_map.mp mem

theorem regular_of_reachable (reach : m.Reachable jobs start s) :
    ∀ record ∈ s.records, Regular m.settings record.1 record.2 := by
  intro record mem
  obtain ⟨t, there, same⟩ := mem_records mem
  subst same
  exact (orderly_of_reachable reach t there).regular

theorem records_of_begin : ∀ record ∈ (m.begin jobs start).records, record.2 = [] := by
  intro record mem
  obtain ⟨t, there, same⟩ := mem_records mem
  obtain ⟨job, _, new⟩ := List.mem_map.mp there
  subst same new
  rfl

/-- What an answer shows of the files, and what is still so after each answer, is so of all that
was answered; of files that are in some order, which each answer keeps. -/
theorem shown_in_order (ordered : FileSystem → Prop) {shows : FileSystem → Exchange → Prop}
    (houses : m.environment.Houses files)
    (stays : ∀ fs x fs', ordered fs → FileSystem.Answers fs x fs' → ordered fs')
    (made : ∀ fs x fs', ordered fs → FileSystem.Answers fs x fs' → shows fs' x)
    (kept : ∀ fs y fs' x, ordered fs → FileSystem.Answers fs y fs' → shows fs x → shows fs' x)
    (first : ordered (files start)) (reach : m.Reachable jobs start s) :
    ordered (files s.surroundings) ∧
      (∀ record ∈ s.records, ∀ x ∈ record.2, shows (files s.surroundings) x) ∧
      ∀ x ∈ s.minutes, shows (files s.surroundings) x := by
  induction reach with
  | start =>
    refine ⟨first, ?_, ?_⟩
    · intro record mem x there
      rw [records_of_begin record mem] at there
      cases there
    · intro x mem
      cases mem
  | @step s s' reach step ih =>
    obtain ⟨order, inRecords, inMinutes⟩ := ih
    cases moves_of_step houses reach step with
    | still same records minutes =>
      rw [same, records, minutes]
      exact ⟨order, inRecords, inMinutes⟩
    | @job before after job t x old new answers _ minutes =>
      rw [old] at inRecords
      have still : ∀ record ∈ before ++ (job, t) :: after, ∀ y ∈ record.2,
          shows (files s'.surroundings) y :=
        fun record mem y there => kept _ _ _ y order answers (inRecords record mem y there)
      have own : ∀ y ∈ t ++ [x], shows (files s'.surroundings) y :=
        forall_concat (still (job, t) (by simp)) (made _ _ _ order answers)
      rw [minutes, new]
      exact ⟨stays _ _ _ order answers, forall_replaced still own,
        fun y mem => kept _ _ _ y order answers (inMinutes y mem)⟩
    | listener records answers minutes =>
      rw [records, minutes]
      refine ⟨stays _ _ _ order answers,
        fun record mem y there => kept _ _ _ y order answers (inRecords record mem y there), ?_⟩
      exact forall_concat (fun y past => kept _ _ _ y order answers (inMinutes y past))
        (made _ _ _ order answers)

theorem shown_of_reachable {shows : FileSystem → Exchange → Prop}
    (houses : m.environment.Houses files)
    (made : ∀ fs x fs', FileSystem.Answers fs x fs' → shows fs' x)
    (kept : ∀ fs fs' x, FileSystem.Grows fs fs' → shows fs x → shows fs' x)
    (reach : m.Reachable jobs start s) :
    (∀ record ∈ s.records, ∀ x ∈ record.2, shows (files s.surroundings) x) ∧
      ∀ x ∈ s.minutes, shows (files s.surroundings) x :=
  (shown_in_order (fun _ => True) houses (fun _ _ _ _ _ => trivial)
    (fun _ _ _ _ answers => made _ _ _ answers)
    (fun _ _ _ _ _ answers => kept _ _ _ answers.grows) trivial reach).2

theorem grows_of_reachable (houses : m.environment.Houses files)
    (reach : m.Reachable jobs start s) : (files start).Grows (files s.surroundings) := by
  induction reach with
  | start => exact FileSystem.grows_refl _
  | @step s s' reach step ih =>
    cases moves_of_step houses reach step with
    | still same => exact same ▸ ih
    | job _ _ answers => exact ih.trans answers.grows
    | listener _ answers => exact ih.trans answers.grows

def Placed (fs : FileSystem) : Exchange → Prop
  | ⟨.openFile p, .ok id⟩ | ⟨.createFile p, .ok id⟩ => fs.resolve p = .ok id
  | _ => True

theorem placed_of_reachable (houses : m.environment.Houses files)
    (reach : m.Reachable jobs start s) :
    (∀ record ∈ s.records, ∀ x ∈ record.2, Placed (files s.surroundings) x) ∧
      ∀ x ∈ s.minutes, Placed (files s.surroundings) x := by
  refine shown_of_reachable houses ?_ ?_ reach
  · intro fs x fs' answers
    cases answers with
    | openFile opened => exact (FileSystem.openFile_ok opened).1
    | createFile created => exact FileSystem.resolve_of_createFile created
    | _ => trivial
  · intro fs fs' x grows placed
    obtain ⟨call, answer⟩ := x
    cases call with
    | openFile p =>
      cases answer with
      | error e => trivial
      | ok id => exact grows.resolve placed
    | createFile p =>
      cases answer with
      | error e => trivial
      | ok id => exact grows.resolve placed
    | _ => trivial

end Setup

end ModuleTree
