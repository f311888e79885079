import ModuleTree.Proofs.Run.GraphFile
/- What a run comes to when the outcome of each job is foretold. Neither the schedule nor the
   number of workers has a part in it: the forecast alone tells whether the run ends well, what
   it sums up to and which bytes are in its graph. -/
namespace ModuleTree

variable {σ : Type}

/-- What is foretold of a run: the module of each job, or none for a job that fails, and whether
the graph can be written. -/
structure Forecast where
  modules : List (Option Compiled)
  writable : Bool

namespace Forecast

def nodesOf : List Job → List (Option Compiled) → List (String × List String)
  | job :: jobs, some module :: modules =>
    (job.nodeName, module.dependencies) :: nodesOf jobs modules
  | _ :: jobs, none :: modules => nodesOf jobs modules
  | _, _ => []

/-- A forecast of a run that ends well. -/
def Promises (f : Forecast) (settings : Settings) (jobs : List Job) : Prop :=
  (∀ module? ∈ f.modules, module?.isSome) ∧
    (settings.graph → (jobs.map Job.nodeName).Nodup ∧ f.writable)

def summary (settings : Settings) (destination : Path) (jobs : List Job) : Summary :=
  ⟨jobs.length, if settings.graph then some (graphPath destination) else none⟩

def graphText (f : Forecast) (jobs : List Job) : String :=
  Accumulator.fileText (.ofList (nodesOf jobs f.modules))

end Forecast

/-- A task that has done nothing against its forecast. Not all that it is told has to be the
same on each schedule; another task may have made its directory, or nobody may have heard it. -/
def Task.Meets (t : Task) : Option Compiled → Prop
  | none => t.result? ≠ some (.ok ())
  | some module => (∀ c ∈ t.modules, c = module) ∧ ∀ e, ¬t.FailedWith e

structure Run.Meets (m : Setup σ) (s : Run σ) (f : Forecast) : Prop where
  tasks : List.Forall₂ Task.Meets s.tasks f.modules
  graph : m.settings.graph → s.flushes = 1 → (s.WroteGraph m ↔ f.writable)

namespace Setup

variable {m : Setup σ} {jobs : List Job} {start : σ} {s : Run σ} {f : Forecast}

theorem nodes_of_meets {tasks : List Task} {modules : List (Option Compiled)}
    (meets : List.Forall₂ Task.Meets tasks modules)
    (written : ∀ t ∈ tasks, ∃ module, t.Written module)
    (succeeded : ∀ t ∈ tasks, t.result? = some (.ok ())) :
    tasks.flatMap Task.nodes = Forecast.nodesOf (tasks.map Task.job) modules := by
  induction meets with
  | nil => rfl
  | @cons t foretold tasks modules here _ ih =>
    have others := ih (fun u mem => written u (List.mem_cons_of_mem _ mem))
      (fun u mem => succeeded u (List.mem_cons_of_mem _ mem))
    obtain ⟨module, compiled, _⟩ := written t List.mem_cons_self
    cases foretold with
    | none => exact absurd (succeeded t List.mem_cons_self) here
    | some expected =>
      have same : module = expected := here.1 module (by simp [compiled])
      simp [List.flatMap_cons, others, Task.nodes, compiled, same, Forecast.nodesOf]

theorem foretold_of_succeeded {tasks : List Task} {modules : List (Option Compiled)}
    (meets : List.Forall₂ Task.Meets tasks modules)
    (succeeded : ∀ t ∈ tasks, t.result? = some (.ok ())) : ∀ module? ∈ modules, module?.isSome := by
  induction meets with
  | nil => simp
  | @cons t foretold tasks modules here _ ih =>
    intro module? mem
    rcases List.mem_cons.mp mem with first | later
    · cases foretold with
      | none => exact absurd (succeeded t List.mem_cons_self) here
      | some module => rw [first]; rfl
    · exact ih (fun u mem => succeeded u (List.mem_cons_of_mem _ mem)) module? later

theorem unfailed_of_foretold {tasks : List Task} {modules : List (Option Compiled)}
    (meets : List.Forall₂ Task.Meets tasks modules)
    (foretold : ∀ module? ∈ modules, module?.isSome) (e : RunError) :
    ∀ t ∈ tasks, ¬t.FailedWith e := by
  induction meets with
  | nil => simp
  | @cons t module? tasks modules here _ ih =>
    intro u mem
    rcases List.mem_cons.mp mem with first | later
    · obtain ⟨module, same⟩ := Option.isSome_iff_exists.mp (foretold module? List.mem_cons_self)
      rw [same] at here
      exact first ▸ here.2 e
    · exact ih (fun module? mem => foretold module? (List.mem_cons_of_mem _ mem)) u later

theorem names_of_written {tasks : List Task} (written : ∀ t ∈ tasks, ∃ module, t.Written module) :
    (tasks.flatMap Task.nodes).map Prod.fst = (tasks.map Task.job).map Job.nodeName := by
  induction tasks with
  | nil => rfl
  | cons t rest ih =>
    have others := ih fun u mem => written u (List.mem_cons_of_mem _ mem)
    obtain ⟨module, compiled, _⟩ := written t List.mem_cons_self
    simp [List.flatMap_cons, others, Task.nodes, compiled]

theorem promised_of_ok {summary : Summary} (valid : s.Valid m jobs)
    (returned : s.result? = some (.ok summary)) (meets : s.Meets m f) :
    f.Promises m.settings jobs := by
  obtain ⟨a, counted, released, flushes, _, succeeded, _⟩ := Run.ends_well valid returned
  constructor
  · exact foretold_of_succeeded meets.tasks succeeded
  · intro graph
    obtain ⟨g, _, complete⟩ := Run.complete_of_counted valid graph counted released
    have names : (g.entries.map Prod.fst).Perm (jobs.map Job.nodeName) := by
      rw [← valid.jobs, ← names_of_written complete.outputs]
      exact complete.nodes.map Prod.fst
    exact ⟨names.nodup_iff.mp (Dictionary.keys_nodup g),
      (meets.graph graph flushes).mp (wroteGraph_of_ok valid graph returned)⟩

theorem not_promised_of_error {e : RunError} (valid : s.Valid m jobs)
    (returned : s.result? = some (.error e)) (meets : s.Meets m f) :
    ¬f.Promises m.settings jobs := by
  rintro ⟨succeeds, promised⟩
  rcases Run.ends_in_error valid returned with ⟨_, broke⟩ | ⟨_, ⟨t, mem, failed⟩, _⟩
  · rcases broke with ⟨⟨graph, name, _, twice⟩, _⟩ | ⟨graph, ⟨fault, _, failed⟩, flushes, _⟩
    · have names := (Task.names_of_tasks_sublist valid.tasks).count_le name
      have once := List.nodup_iff_count.mp (promised graph).1 name
      have twice := Run.reported_twice valid twice
      rw [← valid.jobs, List.map_map] at once
      change List.count name (s.tasks.map fun t => t.job.nodeName) ≤ 1 at once
      omega
    · have wrote := (meets.graph graph flushes).mpr (promised graph).2
      exact unwritten_of_no_writes failed.1 wrote
  · exact unfailed_of_foretold meets.tasks succeeds e t mem failed

theorem ok_iff_promised {r : Except RunError Summary} (valid : s.Valid m jobs)
    (returned : s.result? = some r) (meets : s.Meets m f) :
    (∃ summary, r = .ok summary) ↔ f.Promises m.settings jobs := by
  cases r with
  | ok summary =>
    have promised := promised_of_ok valid returned meets
    exact ⟨fun _ => promised, fun _ => ⟨summary, rfl⟩⟩
  | error e =>
    have unpromised := not_promised_of_error valid returned meets
    constructor
    · rintro ⟨_, well⟩
      cases well
    · intro promised
      exact absurd promised unpromised

theorem ends_as_foretold {summary : Summary} (valid : s.Valid m jobs)
    (returned : s.result? = some (.ok summary)) (meets : s.Meets m f) :
    summary = Forecast.summary m.settings m.destination jobs ∧
      (m.settings.graph →
        Wrote s.minutes (graphPath m.destination) (f.graphText jobs).toUTF8) := by
  obtain ⟨a, counted, released, _, flushed, succeeded, sums⟩ := Run.ends_well valid returned
  have files : s.tasks.length = jobs.length := by
    rw [← valid.jobs, List.length_map]
  unfold Flushed at flushed
  cases collected : a.accumulator.graph with
  | none =>
    have plain : ¬m.settings.graph := by
      rw [← counted.graph_wanted, collected]
      simp
    rw [collected] at flushed
    refine ⟨?_, fun graph => absurd graph plain⟩
    rw [sums, files, flushed.1, Forecast.summary, if_neg plain]
  | some g =>
    have graph : m.settings.graph := by
      rw [← counted.graph_wanted, collected]
      rfl
    rw [collected, counted.destination] at flushed
    constructor
    · rw [sums, files, flushed.1, Forecast.summary, if_pos graph]
    · intro _
      obtain ⟨g', same, complete⟩ := Run.complete_of_counted valid graph counted released
      rw [collected] at same
      cases same
      have nodes := complete.nodes
      rw [nodes_of_meets meets.tasks complete.outputs succeeded, valid.jobs] at nodes
      have distinct : ((Forecast.nodesOf jobs f.modules).map Prod.fst).Nodup :=
        (nodes.map Prod.fst).nodup_iff.mp (Dictionary.keys_nodup g)
      have only : g = .ofList (Forecast.nodesOf jobs f.modules) :=
        Dictionary.eq_of_perm (nodes.trans (Dictionary.ofList_perm distinct).symm)
      rw [Forecast.graphText, ← only]
      exact flushed.2

/-- Two runs of the same jobs, each on a schedule of its own and with as many workers as it
likes. Where the outcome of each job is its own, both end well or neither does, and where they
do they come to the same summary and write the same bytes. -/
theorem outcome_independent_of_schedule {σ₁ σ₂ : Type} {m₁ : Setup σ₁} {m₂ : Setup σ₂}
    {start₁ : σ₁} {start₂ : σ₂} {s₁ : Run σ₁} {s₂ : Run σ₂} {r₁ r₂ : Except RunError Summary}
    (settings : m₁.settings = m₂.settings) (destination : m₁.destination = m₂.destination)
    (reach₁ : m₁.Reachable jobs start₁ s₁) (reach₂ : m₂.Reachable jobs start₂ s₂)
    (returned₁ : s₁.result? = some r₁) (returned₂ : s₂.result? = some r₂)
    (meets₁ : s₁.Meets m₁ f) (meets₂ : s₂.Meets m₂ f) :
    ((∃ a, r₁ = .ok a) ↔ ∃ b, r₂ = .ok b) ∧
      ((∃ a, r₁ = .ok a) ↔ f.Promises m₁.settings jobs) ∧
      ∀ a b, r₁ = .ok a → r₂ = .ok b → a = b ∧ (m₁.settings.graph → ∃ bytes,
        Wrote s₁.minutes (graphPath m₁.destination) bytes ∧
          Wrote s₂.minutes (graphPath m₁.destination) bytes) := by
  have valid₁ := valid_of_reachable reach₁
  have valid₂ := valid_of_reachable reach₂
  have first := ok_iff_promised valid₁ returned₁ meets₁
  have second := ok_iff_promised valid₂ returned₂ meets₂
  rw [← settings] at second
  refine ⟨first.trans second.symm, first, fun a b well₁ well₂ => ?_⟩
  subst well₁ well₂
  have ends₁ := ends_as_foretold valid₁ returned₁ meets₁
  have ends₂ := ends_as_foretold valid₂ returned₂ meets₂
  rw [← settings, ← destination] at ends₂
  refine ⟨ends₁.1.trans ends₂.1.symm, fun graph => ?_⟩
  exact ⟨_, ends₁.2 graph, ends₂.2 graph⟩

theorem outcome_of_two_jobs_independent_of_schedule :
    ∃ s₁ s₂ bytes, (obliging (.ok ⟨"code", ["x"]⟩) 0).Reachable [.named "a", .named "b"] () s₁ ∧
      (obliging (.ok ⟨"code", ["x"]⟩) 3).Reachable [.named "a", .named "b"] () s₂ ∧
      Wrote s₁.minutes (graphPath (.ofString "out")) bytes ∧
      Wrote s₂.minutes (graphPath (.ofString "out")) bytes := by
  have runs (others : Nat) : ∃ s, (obliging (.ok ⟨"code", ["x"]⟩) others).Reachable
      [.named "a", .named "b"] () s ∧
      s.result? = some (.ok ⟨2, some (graphPath (.ofString "out"))⟩) ∧
      s.Meets (obliging (.ok ⟨"code", ["x"]⟩) others)
        ⟨[some ⟨"code", ["x"]⟩, some ⟨"code", ["x"]⟩], true⟩ := by
    obtain ⟨s, reach, result, _⟩ := sequential_reachable
      (obliging (.ok ⟨"code", ["x"]⟩) others) [.named "a", .named "b"] ()
    have returned : s.result? = some (.ok ⟨2, some (graphPath (.ofString "out"))⟩) := result
    have valid := valid_of_reachable reach
    obtain ⟨_, _, _, _, _, succeeded, _⟩ := Run.ends_well valid returned
    have meets (t) (mem : t ∈ s.tasks) : t.Meets (some ⟨"code", ["x"]⟩) := by
      refine ⟨fun c compiled => ?_, fun e failed => ?_⟩
      · exact (Except.ok.inj (obliging_modules reach t mem c compiled)).symm
      · have wrong := failed.1
        rw [succeeded t mem] at wrong
        cases wrong
    refine ⟨s, reach, returned, ?_, fun _ _ => ?_⟩
    · have two : s.tasks.length = 2 := by simpa using congrArg List.length valid.jobs
      obtain ⟨t, u, tasks⟩ := List.length_eq_two.mp two
      rw [tasks] at meets ⊢
      exact .cons (meets t (by simp)) (.cons (meets u (by simp)) .nil)
    · exact ⟨fun _ => rfl, fun _ => wroteGraph_of_ok valid rfl returned⟩
  obtain ⟨s₁, reach₁, returned₁, meets₁⟩ := runs 0
  obtain ⟨s₂, reach₂, returned₂, meets₂⟩ := runs 3
  obtain ⟨bytes, wrote₁, wrote₂⟩ := (outcome_independent_of_schedule (by rfl) (by rfl) reach₁ reach₂
    returned₁ returned₂ meets₁ meets₂).2.2 _ _ rfl rfl |>.2 rfl
  exact ⟨s₁, s₂, bytes, reach₁, reach₂, wrote₁, wrote₂⟩

end Setup

end ModuleTree
