import ModuleTree.Proofs.Run.Invariant
/- One schedule of every run: a single worker does the jobs in order, and each report is heard
   before anything else is done. It ends in the outcome of the sequential run. -/
namespace ModuleTree

variable {σ : Type}

def Listener.after : Except RunError Aggregator → Listener
  | .ok a => .listening a
  | .error e => .ended (.error e)

structure Run.Rests (s : Run σ) (r : Running σ) : Prop where
  channel : s.channel = []
  worked : s.worked = none
  surroundings : s.surroundings = r.surroundings
  listener : s.listener = .after r.aggregator

namespace Setup

variable {m : Setup σ} {all : List Job} {start : σ} {s : Run σ}

theorem flush_rests {a : Aggregator} {p : Procedure (Except RunError Aggregator)}
    (reach : m.Reachable all start s) (at_ : s.listener = .flushing a p) (channel : s.channel = [])
    (open_ : s.worked = none) :
    ∃ s', m.Reachable all start s' ∧ s'.tasks = s.tasks ∧
      s'.Rests
        ⟨(p.run m.environment s.surroundings).2, (p.run m.environment s.surroundings).1⟩ := by
  induction p generalizing s with
  | done outcome =>
    refine ⟨_, .step reach (.flushed at_), ?_⟩
    cases outcome <;> exact ⟨rfl, channel, open_, rfl, rfl⟩
  | ask call next ih => exact ih _ (.step reach (.write at_)) rfl channel open_

theorem judge_rests {p : Procedure (Except RunError Duty)}
    (reach : m.Reachable all start s) (at_ : s.listener = .judging p) (channel : s.channel = [])
    (open_ : s.worked = none) :
    ∃ s', m.Reachable all start s' ∧ s'.tasks = s.tasks ∧
      s'.Rests ⟨((p >>= Aggregator.obey).run m.environment s.surroundings).2,
        ((p >>= Aggregator.obey).run m.environment s.surroundings).1⟩ := by
  induction p generalizing s with
  | done verdict =>
    have reach' := Reachable.step reach (.follow at_)
    rcases verdict with e | (a | a)
    · exact ⟨_, reach', rfl, channel, open_, rfl, rfl⟩
    · exact ⟨_, reach', rfl, channel, open_, rfl, rfl⟩
    · exact flush_rests (s := s.follow (.ok (.flush a))) reach' rfl channel open_
  | ask call next ih => exact ih _ (.step reach (.judge at_)) rfl channel open_

section Tasks

variable {before after : List Task} {t : Task} {r : Running σ}

theorem call_rests {call : Call} {next : call.Answer → Procedure (Except RunError Unit)}
    (reach : m.Reachable all start s) (rests : s.Rests r) (tasks : s.tasks = before ++ t :: after)
    (started : t.started) (rest : t.rest = .ask call next) :
    ∃ s', m.Reachable all start s' ∧ s'.Rests (Running.respond m.environment call r).2 ∧
      s'.tasks =
        before ++ t.answered call (Running.respond m.environment call r).1 next :: after := by
  obtain ⟨surroundings, aggregator⟩ := r
  obtain ⟨channel, open_, same, listener⟩ := rests
  cases same
  cases call with
  | report event =>
    cases aggregator with
    | error e =>
      exact ⟨_, .step reach (.refuse tasks started rest listener), ⟨channel, open_, rfl, listener⟩,
        rfl⟩
    | ok a =>
      have room : s.channel.length < backlog := by
        rw [channel]
        decide
      have listened (outcome) : s.listener ≠ .ended outcome := by
        rw [listener]
        exact Listener.noConfusion
      have sent := Reachable.step reach (.send tasks started rest room listened)
      have heard := Reachable.step sent (.hear listener (by rw [channel]; rfl))
      obtain ⟨s', reach', kept, rests⟩ := judge_rests heard rfl rfl open_
      exact ⟨s', reach', rests, kept⟩
  | _ =>
    exact ⟨_, .step reach (.work tasks started rest rfl), ⟨channel, open_, rfl, listener⟩, rfl⟩

theorem task_rests {p : Procedure (Except RunError Unit)} (reach : m.Reachable all start s)
    (rests : s.Rests r) (tasks : s.tasks = before ++ t :: after) (started : t.started)
    (rest : t.rest = p) :
    ∃ s' t', m.Reachable all start s' ∧
      s'.Rests (p.run (Running.respond m.environment) r).2 ∧ s'.tasks = before ++ t' :: after ∧
      t'.started ∧ t'.result? = some (p.run (Running.respond m.environment) r).1 := by
  induction p generalizing s t r with
  | done result => exact ⟨s, t, reach, rests, tasks, started, by simp [Task.result?, rest]; rfl⟩
  | ask call next ih =>
    obtain ⟨s', reach', rests', tasks'⟩ := call_rests reach rests tasks started rest
    exact ih _ reach' rests' tasks' started rfl

end Tasks

theorem idle_of_done {done : List Task} {jobs : List Job}
    (tasks : s.tasks = done ++ jobs.map (Task.new m.settings))
    (succeeded : ∀ t ∈ done, t.started ∧ t.result? = some (.ok ())) :
    s.busy = 0 ∧ ¬s.HasFailed := by
  constructor
  · refine List.countP_eq_zero.mpr fun t mem => ?_
    rw [tasks] at mem
    rcases List.mem_append.mp mem with earlier | later
    · simp [Task.isBusy, (succeeded t earlier).2]
    · obtain ⟨job, _, same⟩ := List.mem_map.mp later
      simp [← same, Task.isBusy, Task.new]
  · rintro ⟨t, mem, e, failed⟩
    rw [tasks] at mem
    rcases List.mem_append.mp mem with earlier | later
    · simp [(succeeded t earlier).2] at failed
    · obtain ⟨job, _, same⟩ := List.mem_map.mp later
      rw [← same] at failed
      cases failed

theorem work_rests {r : Running σ} (done : List Task) {jobs : List Job}
    (reach : m.Reachable all start s) (rests : s.Rests r)
    (tasks : s.tasks = done ++ jobs.map (Task.new m.settings))
    (succeeded : ∀ t ∈ done, t.started ∧ t.result? = some (.ok ())) :
    ∃ s', m.Reachable all start s' ∧
      s'.Rests (Running.work m.environment m.settings jobs r).2 ∧ s'.busy = 0 ∧
      s'.WorkComesTo (Running.work m.environment m.settings jobs r).1 := by
  induction jobs generalizing s r done with
  | nil =>
    refine ⟨s, reach, rests, (idle_of_done tasks succeeded).1, fun t mem => ?_⟩
    rw [tasks] at mem
    exact (succeeded t (by simpa using mem)).2
  | cons job jobs ih =>
    obtain ⟨idle, unfailed⟩ := idle_of_done tasks succeeded
    have free : s.busy < m.workers := by
      rw [idle]
      exact m.staffed
    have taken := Reachable.step reach (.take tasks rfl rests.worked free fun _ =>
      ⟨fun t mem => (succeeded t mem).1, unfailed⟩)
    obtain ⟨s', t', reach', rests', tasks', started, result⟩ :=
      task_rests taken ⟨rests.channel, rests.worked, rests.surroundings, rests.listener⟩ rfl rfl rfl
    change t'.result? =
      some ((compileFile m.settings job).run (Running.respond m.environment) r).1 at result
    change s'.Rests ((compileFile m.settings job).run (Running.respond m.environment) r).2 at rests'
    unfold Running.work
    rcases ended : (compileFile m.settings job).run (Running.respond m.environment) r with
      ⟨outcome, r'⟩
    rw [ended] at result rests'
    cases outcome with
    | ok _ =>
      exact ih (done ++ [t']) reach' rests' (by simp [tasks'])
        (forall_concat succeeded ⟨started, result⟩)
    | error e =>
      refine ⟨s', reach', rests', ?_, t', by simp [tasks'], result⟩
      refine List.countP_eq_zero.mpr fun t mem => ?_
      rw [tasks'] at mem
      rcases List.mem_append.mp mem with earlier | later
      · simp [Task.isBusy, (succeeded t earlier).2]
      · rcases List.mem_cons.mp later with here | later
        · simp [here, Task.isBusy, result]
        · obtain ⟨job, _, same⟩ := List.mem_map.mp later
          simp [← same, Task.isBusy, Task.new]

/-- However many workers there are, a run can come to what the sequential run comes to. -/
theorem sequential_reachable (m : Setup σ) (jobs : List Job) (start : σ) :
    ∃ s, m.Reachable jobs start s ∧
      s.result? = some
        (runSequentially m.environment m.settings m.destination jobs start).1 ∧
      s.surroundings =
        (runSequentially m.environment m.settings m.destination jobs start).2 := by
  obtain ⟨s, reach, tasks, rests⟩ :=
    judge_rests (s := m.begin jobs start) .start rfl rfl rfl
  obtain ⟨s, reach, ⟨channel, open_, surroundings, listener⟩, idle, comes⟩ :=
    work_rests [] reach rests tasks (by simp)
  have length : s.tasks.length = jobs.length := by
    simpa using congrArg List.length (valid_of_reachable reach).jobs
  have left_ := Reachable.step reach (.leave open_ idle comes)
  unfold runSequentially Aggregator.start
  rcases opened : ((Aggregator.new m.destination m.settings jobs.length).opening >>=
    Aggregator.obey).run m.environment start with ⟨aggregator, opening⟩
  change ((Aggregator.new m.destination m.settings jobs.length).opening >>=
    Aggregator.obey).run m.environment (m.begin jobs start).surroundings = _ at opened
  rw [opened] at comes surroundings listener left_
  dsimp only
  rcases worked : Running.work m.environment m.settings jobs ⟨opening, aggregator⟩ with
    ⟨result, surroundings', outcome⟩
  simp only [worked] at comes surroundings listener left_ ⊢
  cases outcome with
  | error e =>
    exact ⟨_, left_, by simp [Run.result?, listener, Listener.after, length], surroundings⟩
  | ok a =>
    have closed := Reachable.step left_ (.close listener channel rfl)
    exact ⟨_, closed, by simp [Run.result?, length], surroundings⟩

end Setup

/-- Surroundings in which every file is there and empty, and every compile comes to this. -/
def Environment.obliging (outcome : Except CompileError Compiled) : Environment Unit :=
  fun call _ => (match call with
    | .pathExists _ | .isDirectory _ | .report _ => true
    | .makeDirectory _ | .writeFile _ _ => .ok ()
    | .openFile _ | .createFile _ => .ok 0
    | .readFile _ => .ok .empty
    | .compile _ => outcome
    | .note _ => (), ())

def Setup.obliging (outcome : Except CompileError Compiled) (others : Nat) : Setup Unit where
  environment := .obliging outcome
  settings := { graph := true }
  destination := .ofString "out"
  workers := others + 1
  staffed := Nat.succ_pos others

theorem Setup.obliging_modules {outcome : Except CompileError Compiled} {others : Nat}
    {jobs : List Job} {s : Run Unit} (reach : (obliging outcome others).Reachable jobs () s) :
    ∀ t ∈ s.tasks, ∀ module ∈ t.modules, outcome = .ok module := by
  intro t mem module compiled
  obtain ⟨request, there⟩ := Task.asked_of_module compiled
  rcases answered_of_reachable reach t mem _ there with report | ⟨w, told⟩
  · cases report
  · exact told.symm

def Job.named (name : String) : Job where
  input := .ofString name
  relative := .ofString name
  output := (Path.ofString "out").child (Text.encode name)
  moduleName := none
  nodeName := name

end ModuleTree
