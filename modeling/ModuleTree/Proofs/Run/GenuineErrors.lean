import ModuleTree.Proofs.Run.Outcome
import ModuleTree.Proofs.Run.SequentialSchedule
/- The errors that a run returns. Workers do meet with a listener that is gone, and the run
   knows errors for a miscount, but on no schedule is one of these what it returns. -/
namespace ModuleTree

variable {σ : Type} {m : Setup σ} {jobs : List Job} {start : σ}

/-- Errors with a cause of their own: in discovery, in the listener or in a task. -/
inductive Genuine (m : Setup σ) (found : Except WalkError (List Job)) (run : Option (Run σ)) :
    RunError → Prop where
  | discovery {e : WalkError} (failed : found = .error e) : Genuine m found run (.walk e)
  /-- A name that was reported more than once. -/
  | duplicate {s : Run σ} {name : String} (at_ : run = some s) (graph : m.settings.graph)
      (ended : s.listener = .ended (.error (.graph (.duplicateModule name))))
      (twice : 2 ≤ (namesOf (s.tasks.flatMap Task.reports)).count name) :
      Genuine m found run (.graph (.duplicateModule name))
  /-- A call that failed when the graph was to be written. -/
  | unwritten {s : Run σ} {fault : GraphError} (at_ : run = some s) (graph : m.settings.graph)
      (ended : s.listener = .ended (.error (.graph fault))) (begun : s.flushes = 1)
      (failed : FlushFailed m.destination s.minutes fault) : Genuine m found run (.graph fault)
  | task {s : Run σ} {t : Task} {e : RunError} (at_ : run = some s) (mem : t ∈ s.tasks)
      (failed : t.FailedWith e) : Genuine m found run e

namespace Genuine

variable {found : Except WalkError (List Job)} {run : Option (Run σ)} {e : RunError}

theorem not_internal (h : Genuine m found run e) :
    e ≠ .aggregator ∧ (∀ fault, e ≠ .barrier fault) ∧
      ∀ remaining expected, e ≠ .incomplete remaining expected := by
  cases h with
  | discovery | duplicate | unwritten => simp
  | task _ _ failed =>
    have own := failed.2.2
    cases e with
    | stream | compile => simp
    | _ => exact own.elim

end Genuine

namespace Setup

theorem genuine_of_broke {s : Run σ} {e : RunError} (valid : s.Valid m jobs)
    (ended : s.listener = .ended (.error e)) (broke : s.Broke m e) :
    Genuine m (.ok jobs) (some s) e := by
  rcases broke with ⟨⟨graph, name, same, twice⟩, _⟩ | ⟨graph, ⟨fault, same, failed⟩, begun, _⟩
  · subst same
    exact .duplicate rfl graph ended (Run.reported_twice valid twice)
  · subst same
    exact .unwritten rfl graph ended begun failed

/-- On every schedule the error of a run is genuine, and one of the listener comes first. -/
theorem only_genuine_errors {found : Except WalkError (List Job)} {run : Option (Run σ)}
    {r : Except RunError Summary} (ends : m.Returns start found run r) :
    (∀ e, r = .error e → Genuine m found run e ∧ e ≠ .aggregator ∧ (∀ fault, e ≠ .barrier fault) ∧
      ∀ remaining expected, e ≠ .incomplete remaining expected) ∧
    ∀ s ∈ run, ∀ e, s.listener = .ended (.error e) → r = .error e := by
  have genuine : ∀ e, r = .error e → Genuine m found run e := by
    intro e wrong
    subst wrong
    cases ends with
    | undiscovered w => exact .discovery rfl
    | settled reach returned =>
      have valid := valid_of_reachable reach
      rcases Run.ends_in_error valid returned with ⟨ended, broke⟩ | ⟨_, ⟨t, mem, failed⟩, _⟩
      · exact genuine_of_broke valid ended broke
      · exact .task rfl mem failed
  refine ⟨fun e wrong => ⟨genuine e wrong, (genuine e wrong).not_internal⟩, ?_⟩
  intro s same e ended
  cases ends with
  | undiscovered => cases same
  | settled reach returned =>
    cases same
    obtain ⟨outcome, worker, listener, _, settled⟩ := Run.parts_of_result returned
    rw [ended] at listener
    cases listener
    exact settled

theorem only_genuine_errors_for_rejected_job :
    ∃ s, (obliging (.error (.rejected "no")) 3).Reachable [.named "a", .named "b"] () s ∧
      Genuine (obliging (.error (.rejected "no")) 3) (.ok [.named "a", .named "b"]) (some s)
        (.compile (.file (.ofString "a")) (.rejected "no")) := by
  obtain ⟨s, reach, result, _⟩ :=
    sequential_reachable (obliging (.error (.rejected "no")) 3) [.named "a", .named "b"] ()
  have wrong : s.result? = some (.error (.compile (.file (.ofString "a")) (.rejected "no"))) :=
    result
  exact ⟨s, reach, ((only_genuine_errors (.settled reach wrong)).1 _ rfl).1⟩

end Setup

end ModuleTree
