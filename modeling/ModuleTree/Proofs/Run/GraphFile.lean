import ModuleTree.Proofs.Run.Outcome
import ModuleTree.Proofs.Run.SequentialSchedule
/- The graph file. On every schedule the listener begins to write it at most once, when all
   outputs are written and all nodes are there, and it stands written just when the run ends
   well. -/
namespace ModuleTree

variable {σ : Type} {m : Setup σ} {jobs : List Job} {start : σ} {s s' : Run σ}

namespace Run

/-- The listener has written a graph, the whole of it, and nothing else. -/
def WroteGraph (m : Setup σ) (s : Run σ) : Prop :=
  ∃ g : Graph, Wrote s.minutes (graphPath m.destination) (Accumulator.fileText g).toUTF8

def Spares (s : Run σ) (p : Path) : Prop :=
  (∀ x ∈ s.minutes, x.call ≠ .createFile p) ∧
    ∀ t ∈ s.tasks, t.job.output ≠ p → ∀ x ∈ t.transcript, x.call ≠ .createFile p

def Collides (s : Run σ) : Prop := ¬(namesOf (s.tasks.flatMap Task.reports)).Nodup

end Run

namespace Setup

theorem step_flushes (step : m.Step s s') :
    s'.flushes = s.flushes ∨ ∃ a, s.listener = .judging (.done (.ok (.flush a))) ∧
      s' = s.follow (.ok (.flush a)) := by
  cases step with
  | follow at_ =>
    rename_i verdict
    rcases verdict with e | (a | a)
    · exact .inl rfl
    · exact .inl rfl
    · exact .inr ⟨a, at_, rfl⟩
  | flushed =>
    rename_i outcome _
    cases outcome <;> exact .inl rfl
  | take | work | send | refuse | leave | judge | write | hear | close => exact .inl rfl

theorem complete_of_verdict {a : Aggregator} (valid : s.Valid m jobs) (graph : m.settings.graph)
    (at_ : s.listener = .judging (.done (.ok (.flush a)))) :
    ∃ g, a.accumulator.graph = some g ∧ s.Complete g := by
  obtain ⟨_, _, counted, released⟩ := valid.judging at_
  exact Run.complete_of_counted valid graph counted released

theorem heard_without_jobs (valid : s.Valid m []) : s.tasks = [] ∧ s.heard = [] := by
  have tasks : s.tasks = [] := List.map_eq_nil_iff.mp valid.jobs
  have reports := valid.reports
  rw [tasks] at reports
  have sent : s.heard ++ s.channel = [] := List.Perm.nil_eq reports |>.symm
  exact ⟨tasks, (List.append_eq_nil_iff.mp sent).1⟩

theorem flushed_without_jobs (valid : s.Valid m [])
    (opened : ∀ rest, s.listener ≠ .judging rest) : s.flushes = 1 := by
  obtain ⟨tasks, heard⟩ := heard_without_jobs valid
  have of_waits {a : Aggregator} (waits : s.Waits m a) : s.flushes = 1 := by
    obtain ⟨counted, ⟨outstanding, _⟩ | ⟨_, flushes, _⟩⟩ := waits
    · have none := counted.remaining
      rw [tasks, List.length_nil] at none
      omega
    · exact flushes
  rcases at_ : s.listener with rest | ⟨a, rest⟩ | a | (e | a)
  · exact absurd at_ (opened rest)
  · exact (valid.flushing at_).1
  · exact of_waits (valid.listening at_)
  · rcases valid.ended_error at_ with ⟨⟨_, name, _, twice⟩, _⟩ | ⟨_, _, flushes, _⟩
    · simp [heard, namesOf, nodesOf] at twice
    · exact flushes
  · exact of_waits (valid.ended_ok at_).1

theorem opened_of_stuck (stuck : ∀ s', ¬m.Step s s') (rest) : s.listener ≠ .judging rest := by
  intro at_
  cases rest with
  | done verdict => exact stuck _ (.follow at_)
  | ask call next => exact stuck _ (.judge at_)

theorem opened_of_result (returned : s.result?.isSome) (rest) : s.listener ≠ .judging rest := by
  intro at_
  obtain ⟨r, result⟩ := Option.isSome_iff_exists.mp returned
  obtain ⟨outcome, _, ended, _⟩ := Run.parts_of_result result
  simp [at_] at ended

/-- The listener begins to write the graph at most once. By then each job has written its
output, and the graph has the node of each job and no other. A run without jobs begins to write
the empty graph just once. -/
theorem graph_begun_once_and_last (graph : m.settings.graph)
    (reach : m.Reachable jobs start s) :
    s.tasks.map Task.job = jobs ∧ s.flushes ≤ 1 ∧
      (∀ s', m.Step s s' → s'.flushes = s.flushes ∨
        s'.flushes = s.flushes + 1 ∧ ∃ a g, s'.listener = .flushing a a.flush ∧
          a.accumulator.graph = some g ∧ s.Complete g ∧ (jobs = [] → g = .empty)) ∧
      (jobs = [] → s.result?.isSome ∨ (∀ s', ¬m.Step s s') → s.flushes = 1) := by
  have valid := valid_of_reachable reach
  refine ⟨valid.jobs, ?_, ?_, ?_⟩
  · rcases Run.quiet_or_released valid with ⟨unflushed, _⟩ | ⟨once, _⟩
    · omega
    · omega
  · intro s' step
    rcases step_flushes step with same | ⟨a, at_, next⟩
    · exact .inl same
    · obtain ⟨g, collected, complete⟩ := complete_of_verdict valid graph at_
      subst next
      refine .inr ⟨rfl, a, g, rfl, collected, complete, fun none => ?_⟩
      subst none
      have nodes := complete.nodes
      rw [(heard_without_jobs valid).1] at nodes
      exact Dictionary.eq_of_perm nodes
  · intro none ended
    subst none
    rcases ended with returned | stuck
    · exact flushed_without_jobs valid (opened_of_result returned)
    · exact flushed_without_jobs valid (opened_of_stuck stuck)

theorem graph_begun_once_for_two_jobs_and_none :
    (∃ s, (obliging (.ok ⟨"code", ["x"]⟩) 3).Reachable [.named "a", .named "b"] () s ∧
      s.result? = some (.ok ⟨2, some (graphPath (.ofString "out"))⟩) ∧ s.flushes ≤ 1) ∧
    ∃ s, (obliging (.ok ⟨"code", ["x"]⟩) 3).Reachable [] () s ∧
      s.result? = some (.ok ⟨0, some (graphPath (.ofString "out"))⟩) ∧ s.flushes = 1 := by
  obtain ⟨s, reach, result, _⟩ :=
    sequential_reachable (obliging (.ok ⟨"code", ["x"]⟩) 3) [.named "a", .named "b"] ()
  obtain ⟨s', reach', result', _⟩ := sequential_reachable (obliging (.ok ⟨"code", ["x"]⟩) 3) [] ()
  have returned' : s'.result?.isSome := by
    rw [result']
    rfl
  exact ⟨⟨s, reach, result, (graph_begun_once_and_last rfl reach).2.1⟩,
    s', reach', result', (graph_begun_once_and_last rfl reach').2.2.2 rfl (.inl returned')⟩

theorem spares_of_quiet (valid : s.Valid m jobs) (quiet : s.Quiet) (p : Path) : s.Spares p := by
  constructor
  · intro x mem create
    obtain ⟨notice, note⟩ := quiet.2 x mem
    rw [create] at note
    cases note
  · intro t mem other x there create
    have own := (valid.tasks t mem).asked x there
    rw [create] at own
    exact other own.symm

theorem quiet_of_hindered (valid : s.Valid m jobs) (graph : m.settings.graph)
    (hindered : s.HasFailed ∨ s.Collides) : s.Quiet := by
  rcases Run.quiet_or_released valid with quiet | ⟨_, a, counted, released⟩
  · exact quiet
  · obtain ⟨channel, finished⟩ := drained valid counted released
    rcases hindered with ⟨t, mem, e, failed⟩ | collides
    · obtain ⟨module, last⟩ := finished t mem
      exact absurd last (Task.unfinished_of_error (valid.tasks t mem) failed module)
    · refine absurd ?_ collides
      have reports := valid.reports
      rw [Run.sent, channel, List.append_nil] at reports
      have names := ((reports.filterMap Event.node?).map Prod.fst).nodup_iff
      exact names.mpr (counted.distinct graph)

theorem unwritten_of_no_writes {s : Run σ} (none : s.minutes.filterMap Exchange.written? = []) :
    ¬s.WroteGraph m := by
  rintro ⟨g, file, _, written⟩
  rw [none] at written
  cases written

theorem wroteGraph_of_ok {summary : Summary} (valid : s.Valid m jobs) (graph : m.settings.graph)
    (returned : s.result? = some (.ok summary)) : s.WroteGraph m := by
  obtain ⟨a, counted, _, _, flushed, _, _⟩ := Run.ends_well valid returned
  obtain ⟨g, collected⟩ := Option.isSome_iff_exists.mp (counted.graph_wanted.mpr graph)
  unfold Flushed at flushed
  rw [collected, counted.destination] at flushed
  exact ⟨g, flushed.2⟩

theorem unwritten_of_error {e : RunError} (valid : s.Valid m jobs)
    (returned : s.result? = some (.error e)) : ¬s.WroteGraph m := by
  rcases Run.ends_in_error valid returned with ⟨_, broke⟩ | ⟨_, _, quiet⟩
  · rcases broke with ⟨_, quiet⟩ | ⟨_, ⟨fault, _, failed⟩, _⟩
    · exact unwritten_of_no_writes (unwritten_of_noted quiet.2)
    · exact unwritten_of_no_writes failed.1
  · exact unwritten_of_no_writes (unwritten_of_noted quiet.2)

/-- At the end of a run its graph stands written just when the run returns well. Where nothing
was discovered, a task fails or two nodes have one name, nobody has even tried to create the
file, whatever the other tasks have done. -/
theorem graph_written_iff_ok {found : Except WalkError (List Job)} {run : Option (Run σ)}
    {r : Except RunError Summary} (graph : m.settings.graph) (ends : m.Returns start found run r) :
    ((∃ s ∈ run, s.WroteGraph m) ↔ ∃ summary, r = .ok summary) ∧
      ((∃ e, found = .error e) ∨ (∃ s ∈ run, s.HasFailed ∨ s.Collides) →
        (¬∃ s ∈ run, s.WroteGraph m) ∧
          ∀ s ∈ run, s.flushes = 0 ∧ s.Spares (graphPath m.destination)) := by
  cases ends with
  | undiscovered e => simp
  | @settled jobs s r reach returned =>
    have valid := valid_of_reachable reach
    constructor
    · constructor
      · rintro ⟨s', same, wrote⟩
        cases same
        cases r with
        | ok summary => exact ⟨summary, rfl⟩
        | error e => exact absurd wrote (unwritten_of_error valid returned)
      · rintro ⟨summary, well⟩
        subst well
        exact ⟨s, rfl, wroteGraph_of_ok valid graph returned⟩
    · rintro (⟨e, none⟩ | ⟨s', same, hindered⟩)
      · cases none
      · cases same
        have quiet := quiet_of_hindered valid graph hindered
        constructor
        · rintro ⟨s', same, wrote⟩
          cases same
          exact unwritten_of_no_writes (unwritten_of_noted quiet.2) wrote
        · intro s' same
          cases same
          exact ⟨quiet.1, spares_of_quiet valid quiet _⟩

theorem graph_written_for_two_jobs :
    ∃ s, (obliging (.ok ⟨"code", ["x"]⟩) 3).Reachable [.named "a", .named "b"] () s ∧
      s.WroteGraph (obliging (.ok ⟨"code", ["x"]⟩) 3) := by
  obtain ⟨s, reach, result, _⟩ :=
    sequential_reachable (obliging (.ok ⟨"code", ["x"]⟩) 3) [.named "a", .named "b"] ()
  have well : s.result? = some (.ok ⟨2, some (graphPath (.ofString "out"))⟩) := result
  obtain ⟨s', same, wrote⟩ := (graph_written_iff_ok rfl (.settled reach well)).1.mpr ⟨_, rfl⟩
  cases same
  exact ⟨s, reach, wrote⟩

end Setup

end ModuleTree
