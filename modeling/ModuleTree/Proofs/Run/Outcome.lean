import Mathlib.Data.List.Basic
import ModuleTree.Proofs.Run.Invariant
/- The ends of a run. When the last job was counted, every output is written and the graph has
   all nodes. A run that ends well has written it, and one that ends in an error owes it to the
   listener or to a task that failed by itself. -/
namespace ModuleTree

variable {σ : Type}

/-- The module of a task is in the output of the task, as a whole. -/
def Task.Written (t : Task) (module : Compiled) : Prop :=
  t.modules = [module] ∧ Wrote t.transcript t.job.output module.code.toUTF8

/-- A task that failed, and not for want of somebody to hear it. -/
def Task.FailedWith (t : Task) (e : RunError) : Prop :=
  t.result? = some (.error e) ∧ Heard t.transcript ∧ OwnFailure t.job t.transcript e

namespace Run

/-- Each task has written its output and has its one node in the graph, and nothing else is
there. -/
structure Complete (s : Run σ) (g : Graph) : Prop where
  outputs : ∀ t ∈ s.tasks, ∃ module, t.Written module
  nodes : g.entries.Perm (s.tasks.flatMap Task.nodes)

variable {m : Setup σ} {jobs : List Job} {s : Run σ} {a : Aggregator}

theorem written_of_finished {settings : Settings} {t : Task} {module : Compiled}
    (finished : t.AtStage settings (.finished module)) : t.Written module :=
  ⟨finished.modules, finished.writes⟩

theorem complete_of_counted (valid : s.Valid m jobs) (graph : m.settings.graph)
    (counted : Counted m.destination m.settings s.tasks.length s.heard a)
    (released : a.barrier.remaining = 0) :
    ∃ g, a.accumulator.graph = some g ∧ s.Complete g := by
  obtain ⟨channel, finished⟩ := Setup.drained valid counted released
  refine ⟨.ofList (nodesOf s.heard), by simp [counted.accumulator, Accumulator.ofNodes, graph],
    ?_, ?_⟩
  · intro t mem
    obtain ⟨module, here⟩ := finished t mem
    exact ⟨module, written_of_finished here⟩
  · have reports := valid.reports
    rw [sent, channel, List.append_nil] at reports
    have nodes : nodesOf (s.tasks.flatMap Task.reports) = s.tasks.flatMap Task.nodes := by
      unfold nodesOf
      rw [List.filterMap_flatMap]
      refine List.flatMap_congr fun t mem => ?_
      obtain ⟨module, here⟩ := finished t mem
      exact Task.nodes_of_finished graph here
    calc (Dictionary.ofList (nodesOf s.heard)).entries.Perm (nodesOf s.heard) :=
          Dictionary.ofList_perm (counted.distinct graph)
      _ |>.Perm (nodesOf (s.tasks.flatMap Task.reports)) := (reports.filterMap Event.node?).symm
      _ = s.tasks.flatMap Task.nodes := nodes

/-- Either the listener has only left notices, or it has counted the last job and has begun
to write the graph, once. -/
theorem quiet_or_released (valid : s.Valid m jobs) :
    s.Quiet ∨ s.flushes = 1 ∧ s.Released m := by
  have of_waits {a : Aggregator} (waits : s.Waits m a) :
      s.Quiet ∨ s.flushes = 1 ∧ s.Released m := by
    obtain ⟨counted, ⟨_, _, quiet⟩ | ⟨released, flushes, _⟩⟩ := waits
    · exact .inl quiet
    · exact .inr ⟨flushes, a, counted, released⟩
  rcases at_ : s.listener with rest | ⟨a, rest⟩ | a | (e | a)
  · exact .inl (valid.judging at_).1
  · obtain ⟨flushes, counted, released, _⟩ := valid.flushing at_
    exact .inr ⟨flushes, a, counted, released⟩
  · exact of_waits (valid.listening at_)
  · rcases valid.ended_error at_ with ⟨_, quiet⟩ | ⟨_, _, begun⟩
    · exact .inl quiet
    · exact .inr begun
  · exact of_waits (valid.ended_ok at_).1

theorem reported_twice {name : String} (valid : s.Valid m jobs)
    (twice : 2 ≤ (namesOf s.heard).count name) :
    2 ≤ (namesOf (s.tasks.flatMap Task.reports)).count name := by
  have names := ((valid.reports.filterMap Event.node?).map Prod.fst).count_eq name
  have heard : (namesOf s.heard).Sublist (namesOf s.sent) :=
    ((List.sublist_append_left s.heard s.channel).filterMap Event.node?).map Prod.fst
  calc 2 ≤ (namesOf s.heard).count name := twice
    _ ≤ (namesOf s.sent).count name := heard.count_le name
    _ = (namesOf (s.tasks.flatMap Task.reports)).count name := names.symm

theorem parts_of_result {r : Except RunError Summary} (returned : s.result? = some r) :
    ∃ outcome worker, s.listener = .ended outcome ∧ s.worked = some worker ∧
      r = settle s.tasks.length outcome worker := by
  unfold result? at returned
  split at returned
  · rename_i outcome worker listener worked
    exact ⟨outcome, worker, listener, worked, (Option.some.inj returned).symm⟩
  · contradiction

theorem released_of_succeeded (valid : s.Valid m jobs) (channel : s.channel = [])
    (succeeded : s.WorkComesTo (.ok ()))
    (counted : Counted m.destination m.settings s.tasks.length s.heard a) :
    a.barrier.remaining = 0 := by
  have finished : finishedIn (s.tasks.flatMap Task.reports) = s.tasks.length :=
    Task.finishedIn_of_all fun t mem => (Task.sound_ends (valid.tasks t mem) (succeeded t mem)).1
  have heard : finishedIn (s.tasks.flatMap Task.reports) = finishedIn s.sent :=
    valid.reports.countP_eq Event.isFinished
  rw [sent, channel, List.append_nil] at heard
  have := counted.remaining
  omega

theorem ends_well {summary : Summary} (valid : s.Valid m jobs)
    (returned : s.result? = some (.ok summary)) :
    ∃ a, Counted m.destination m.settings s.tasks.length s.heard a ∧ a.barrier.remaining = 0 ∧
      s.flushes = 1 ∧ Flushed a s.minutes ∧ (∀ t ∈ s.tasks, t.result? = some (.ok ())) ∧
        summary = ⟨s.tasks.length, a.written⟩ := by
  obtain ⟨outcome, worker, listener, worked, settled⟩ := parts_of_result returned
  cases outcome with
  | error e => cases settled
  | ok a =>
    cases worker with
    | error e => cases settled
    | ok _ =>
      obtain ⟨⟨counted, waiting⟩, _, channel⟩ := valid.ended_ok listener
      have succeeded := (valid.left _ worked).2
      have released := released_of_succeeded valid channel succeeded counted
      rcases waiting with ⟨outstanding, _⟩ | ⟨_, flushes, flushed⟩
      · exact absurd released outstanding
      · refine ⟨a, counted, released, flushes, flushed, succeeded, ?_⟩
        simp only [settle, released] at settled
        exact Except.ok.inj settled

theorem ends_in_error {e : RunError} (valid : s.Valid m jobs)
    (returned : s.result? = some (.error e)) :
    s.listener = .ended (.error e) ∧ s.Broke m e ∨
      (∃ a, s.listener = .ended (.ok a)) ∧ (∃ t ∈ s.tasks, t.FailedWith e) ∧ s.Quiet := by
  obtain ⟨outcome, worker, listener, worked, settled⟩ := parts_of_result returned
  cases outcome with
  | error e' =>
    cases settled
    exact .inl ⟨listener, valid.ended_error listener⟩
  | ok a =>
    obtain ⟨⟨counted, waiting⟩, _, channel⟩ := valid.ended_ok listener
    have comes := (valid.left _ worked).2
    cases worker with
    | ok _ =>
      have released := released_of_succeeded valid channel comes counted
      simp [settle, released] at settled
    | error e' =>
      cases settled
      obtain ⟨t, mem, failed⟩ := comes
      have stops : StopsEarly m.settings t.job t.transcript e :=
        Task.sound_ends (valid.tasks t mem) failed
      -- A graph is begun only after the last task, and this one never came to its end.
      have quiet : s.Quiet := by
        rcases waiting with ⟨_, _, quiet⟩ | ⟨released, _⟩
        · exact quiet
        · obtain ⟨module, finished⟩ := (Setup.drained valid counted released).2 t mem
          exact absurd finished (Task.unfinished_of_error (valid.tasks t mem) failed module)
      rcases stops.2 with ⟨heard, own⟩ | ⟨unheard, _⟩
      · exact .inr ⟨⟨a, listener⟩, ⟨t, mem, failed, heard, own⟩, quiet⟩
      · obtain ⟨e, ended⟩ := valid.unheard ⟨t, mem, unheard⟩
        simp [listener] at ended

end Run

end ModuleTree
