import ModuleTree.Proofs.Procedure.Together
import ModuleTree.Proofs.Run.TaskReports
/- A run goes on until it returns, and it does return. In every state some party can take a
   step, whoever waits for whom, and no schedule is endless: what the workers have left to ask
   comes first, then what they have come to, then the reports under way, and last of all what
   the listener has left to do before the next report. -/
namespace ModuleTree

variable {σ : Type}

namespace Task
open Procedure

def ahead (t : Task) : Nat × Procedure (Except RunError Unit) :=
  (if t.started then 0 else 1, t.rest)

def Later (t' t : Task) : Prop := Prod.Lex (· < ·) Follows t'.ahead t.ahead

theorem later_wellFounded : WellFounded Later :=
  InvImage.wf ahead (WellFounded.prod_lex Nat.lt_wfRel.wf follows_wellFounded)

theorem later_started {t : Task} (fresh : t.started = false) :
    Later { t with started := true } t := by
  refine Prod.Lex.left _ _ ?_
  simp [fresh]

theorem later_answered {t : Task} {call : Call}
    {next : call.Answer → Procedure (Except RunError Unit)} (rest : t.rest = .ask call next)
    (answer : call.Answer) : Later (t.answered call answer next) t := by
  have follows : Follows (next answer) t.rest := rest ▸ .answered call next answer
  exact Prod.Lex.right _ follows

end Task

namespace Listener
open Procedure

inductive Later : Listener → Listener → Prop where
  | judged {rest rest' : Procedure (Except RunError Duty)} (follows : Follows rest' rest) :
      Later (.judging rest') (.judging rest)
  | begun {a : Aggregator} {rest : Procedure (Except RunError Duty)}
      {flush : Procedure (Except RunError Aggregator)} : Later (.flushing a flush) (.judging rest)
  | written {a : Aggregator} {rest rest' : Procedure (Except RunError Aggregator)}
      (follows : Follows rest' rest) : Later (.flushing a rest') (.flushing a rest)
  | waits {l : Listener} {a : Aggregator}
      (active : (∃ rest, l = .judging rest) ∨ ∃ b rest, l = .flushing b rest) :
      Later (.listening a) l
  | ends {l : Listener} {outcome : Except RunError Aggregator}
      (active : ∀ outcome, l ≠ .ended outcome) : Later (.ended outcome) l

theorem acc_ended (outcome : Except RunError Aggregator) : Acc Later (.ended outcome) := by
  constructor
  intro l later
  cases later with
  | waits active => simp at active
  | ends active => exact absurd rfl (active outcome)

theorem acc_listening (a : Aggregator) : Acc Later (.listening a) := by
  constructor
  intro l later
  cases later with
  | waits active => simp at active
  | ends => exact acc_ended _

theorem acc_flushing (a : Aggregator) (rest : Procedure (Except RunError Aggregator)) :
    Acc Later (.flushing a rest) := by
  induction rest using follows_wellFounded.induction with
  | _ rest ih =>
    constructor
    intro l later
    cases later with
    | written follows => exact ih _ follows
    | waits => exact acc_listening _
    | ends => exact acc_ended _

theorem acc_judging (rest : Procedure (Except RunError Duty)) : Acc Later (.judging rest) := by
  induction rest using follows_wellFounded.induction with
  | _ rest ih =>
    constructor
    intro l later
    cases later with
    | judged follows => exact ih _ follows
    | begun => exact acc_flushing _ _
    | waits => exact acc_listening _
    | ends => exact acc_ended _

theorem later_wellFounded : WellFounded Later := by
  constructor
  intro l
  cases l with
  | judging rest => exact acc_judging rest
  | flushing a rest => exact acc_flushing a rest
  | listening a => exact acc_listening a
  | ended outcome => exact acc_ended outcome

end Listener

namespace Run

def staying (s : Run σ) : Nat := if s.worked.isSome then 0 else 1

/-- What counts the steps of a run down. -/
def ahead (s : Run σ) : Multiset Task × Nat × Nat × Listener :=
  (s.tasks, s.staying, s.channel.length, s.listener)

abbrev Later : Multiset Task × Nat × Nat × Listener → Multiset Task × Nat × Nat × Listener → Prop :=
  Prod.Lex (Relation.CutExpand Task.Later)
    (Prod.Lex (· < ·) (Prod.Lex (· < ·) Listener.Later))

theorem later_wellFounded : WellFounded Later :=
  WellFounded.prod_lex Task.later_wellFounded.cutExpand
    (WellFounded.prod_lex Nat.lt_wfRel.wf
      (WellFounded.prod_lex Nat.lt_wfRel.wf Listener.later_wellFounded))

end Run

namespace Setup
open Run

variable {m : Setup σ} {jobs : List Job} {start : σ} {s s' : Run σ}

theorem ahead_task {before after : List Task} {t t' : Task}
    (tasks : s.tasks = before ++ t :: after) (tasks' : s'.tasks = before ++ t' :: after)
    (later : t'.Later t) : Run.Later s'.ahead s.ahead := by
  unfold Run.ahead
  rw [tasks, tasks']
  exact .left _ _ (Procedure.cutExpand_of_replaced later)

theorem ahead_listener (tasks : s'.tasks = s.tasks) (worked : s'.worked = s.worked)
    (channel : s'.channel = s.channel) (later : s'.listener.Later s.listener) :
    Run.Later s'.ahead s.ahead := by
  unfold Run.ahead staying
  rw [tasks, worked, channel]
  exact .right _ (.right _ (.right _ later))

theorem step_later (step : m.Step s s') : Run.Later s'.ahead s.ahead := by
  cases step with
  | take tasks fresh => exact ahead_task tasks rfl (Task.later_started fresh)
  | work tasks _ rest | send tasks _ rest | refuse tasks _ rest =>
    exact ahead_task tasks rfl (Task.later_answered rest _)
  | leave open_ =>
    refine .right _ (.left _ _ ?_)
    simp [staying, open_]
  | hear _ channel =>
    refine .right _ (.right _ (.left _ _ ?_))
    simp [channel]
  | judge at_ =>
    refine ahead_listener rfl rfl rfl ?_
    rw [at_]
    exact .judged (.answered _ _ _)
  | write at_ =>
    refine ahead_listener rfl rfl rfl ?_
    rw [at_]
    exact .written (.answered _ _ _)
  | close at_ =>
    refine ahead_listener rfl rfl rfl ?_
    rw [at_]
    exact .ends (by simp)
  | @follow verdict at_ =>
    rcases verdict with e | (a | a) <;> refine ahead_listener rfl rfl rfl ?_ <;> rw [at_]
    · exact .ends (by simp)
    · exact .waits (.inl ⟨_, rfl⟩)
    · exact .begun
  | @flushed a outcome at_ =>
    cases outcome <;> refine ahead_listener rfl rfl rfl ?_ <;> rw [at_]
    · exact .ends (by simp)
    · exact .waits (.inr ⟨_, _, rfl⟩)

theorem step_wellFounded (m : Setup σ) : WellFounded fun s' s => m.Step s s' :=
  (InvImage.wf Run.ahead later_wellFounded).mono fun _ _ => step_later

theorem listener_moves (listens : ∀ outcome, s.listener ≠ .ended outcome)
    (ready : s.channel ≠ [] ∨ s.worked.isSome ∨ ∀ a, s.listener ≠ .listening a) :
    ∃ s', m.Step s s' ∧ s'.tasks = s.tasks ∧ s'.worked = s.worked := by
  rcases at_ : s.listener with rest | ⟨a, rest⟩ | a | outcome
  · cases rest with
    | done verdict =>
      refine ⟨_, .follow at_, ?_⟩
      rcases verdict with e | (a | a) <;> exact ⟨rfl, rfl⟩
    | ask call next => exact ⟨_, .judge at_, rfl, rfl⟩
  · cases rest with
    | done outcome =>
      refine ⟨_, .flushed at_, ?_⟩
      cases outcome <;> exact ⟨rfl, rfl⟩
    | ask call next => exact ⟨_, .write at_, rfl, rfl⟩
  · cases channel : s.channel with
    | cons event later => exact ⟨_, .hear at_ channel, rfl, rfl⟩
    | nil =>
      rcases ready with more | left_ | active
      · exact absurd channel more
      · obtain ⟨result, worked⟩ := Option.isSome_iff_exists.mp left_
        exact ⟨_, .close at_ channel worked, rfl, rfl⟩
      · exact absurd at_ (active a)
  · exact absurd at_ (listens outcome)

theorem worker_moves {before after : List Task} {t : Task}
    (tasks : s.tasks = before ++ t :: after) (busy : t.isBusy) :
    (∃ s' t', m.Step s s' ∧ t.Advances t' ∧ s'.tasks = before ++ t' :: after) ∨
      (backlog ≤ s.channel.length ∧
        ∃ s', m.Step s s' ∧ s'.tasks = s.tasks ∧ s'.worked = s.worked) := by
  obtain ⟨started, waits⟩ := Bool.and_eq_true_iff.mp busy
  cases rest : t.rest with
  | done result => simp [Task.result?, rest] at waits
  | ask call next =>
    cases quiet : call.isReport with
    | false => exact .inl ⟨_, _, .work tasks started rest quiet, .answered started rest _, rfl⟩
    | true =>
      cases call with
      | report event =>
        by_cases gone : ∃ outcome, s.listener = .ended outcome
        · obtain ⟨outcome, gone⟩ := gone
          exact .inl ⟨_, _, .refuse tasks started rest gone, .answered started rest _, rfl⟩
        · have listens : ∀ outcome, s.listener ≠ .ended outcome := fun outcome at_ => gone ⟨_, at_⟩
          by_cases room : s.channel.length < backlog
          · exact .inl ⟨_, _, .send tasks started rest room listens, .answered started rest _, rfl⟩
          · refine .inr ⟨Nat.le_of_not_lt room, listener_moves listens (.inl ?_)⟩
            intro empty
            rw [empty] at room
            exact room (by decide)
      | _ => cases quiet

theorem leaves_or_takes (idle : s.busy = 0) (open_ : s.worked = none) : ∃ s', m.Step s s' := by
  by_cases failed : s.HasFailed
  · obtain ⟨t, mem, e, result⟩ := failed
    have comes : s.WorkComesTo (.error e) := ⟨t, mem, result⟩
    exact ⟨_, .leave open_ idle comes⟩
  · by_cases fresh : ∃ t ∈ s.tasks, t.started = false
    -- The first job that nobody has taken is the one whose turn it is.
    · obtain ⟨before, t, after, tasks, fresh, earlier⟩ : ∃ before t after,
          s.tasks = before ++ t :: after ∧ t.started = false ∧ ∀ u ∈ before, u.started := by
        obtain ⟨t, found⟩ := Option.isSome_iff_exists.mp
          (List.find?_isSome (p := fun t : Task => !t.started).mpr (by simpa using fresh))
        obtain ⟨here, before, after, tasks, others⟩ := List.find?_eq_some_iff_append.mp found
        exact ⟨before, t, after, tasks, by simpa using here, by simpa using others⟩
      have free : s.busy < m.workers := by
        rw [idle]
        exact m.staffed
      exact ⟨_, .take tasks fresh open_ free fun _ => ⟨earlier, failed⟩⟩
    · have comes : s.WorkComesTo (.ok ()) := by
        intro t mem
        have started : t.started = true := by
          rw [← Bool.not_eq_false]
          exact fun unstarted => fresh ⟨t, mem, unstarted⟩
        have unbusy := List.countP_eq_zero.mp idle t mem
        cases result : t.result? with
        | none => simp [Task.isBusy, started, result] at unbusy
        | some outcome =>
          cases outcome with
          | ok _ => rfl
          | error e => exact absurd ⟨t, mem, e, result⟩ failed
      exact ⟨_, .leave open_ idle comes⟩

theorem moves_until_returned (unreturned : s.result? = none) : ∃ s', m.Step s s' := by
  by_cases busy : ∃ t ∈ s.tasks, t.isBusy
  · obtain ⟨t, mem, busy⟩ := busy
    obtain ⟨before, after, tasks⟩ := List.append_of_mem mem
    rcases worker_moves tasks busy with ⟨s', _, step, _⟩ | ⟨_, s', step, _⟩
    · exact ⟨s', step⟩
    · exact ⟨s', step⟩
  · have idle : s.busy = 0 := List.countP_eq_zero.mpr fun t mem here => busy ⟨t, mem, here⟩
    cases worked : s.worked with
    | none => exact leaves_or_takes idle worked
    | some worker =>
      have listens : ∀ outcome, s.listener ≠ .ended outcome := by
        intro outcome ended
        simp [result?, ended, worked] at unreturned
      obtain ⟨s', step, _⟩ := listener_moves (m := m) listens (.inr (.inl (by simp [worked])))
      exact ⟨s', step⟩

/-- A run that has not returned can go on: its workers whether or not anybody listens, the
listener whenever the channel is full. And it does not go on for ever. -/
theorem never_stuck_and_never_endless (m : Setup σ) (jobs : List Job) (start : σ) :
    (∀ s, m.Reachable jobs start s → s.result? = none → ∃ s', m.Step s s') ∧
    (∀ s, m.Reachable jobs start s → ∀ before t after, s.tasks = before ++ t :: after → t.isBusy →
      (∃ s' t', m.Step s s' ∧ t.Advances t' ∧ s'.tasks = before ++ t' :: after) ∨
        (backlog ≤ s.channel.length ∧
          ∃ s', m.Step s s' ∧ s'.tasks = s.tasks ∧ s'.worked = s.worked)) ∧
    ¬∃ course : Nat → Run σ, course 0 = m.begin jobs start ∧
      ∀ n, m.Step (course n) (course (n + 1)) := by
  refine ⟨fun s _ => moves_until_returned, fun s _ before t after => worker_moves, ?_⟩
  rintro ⟨course, _, goes⟩
  exact (wellFounded_iff_isEmpty_descending_chain.mp (step_wellFounded m)).false ⟨course, goes⟩

end Setup

end ModuleTree
