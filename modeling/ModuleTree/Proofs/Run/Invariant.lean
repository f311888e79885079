import ModuleTree.Proofs.Run.TaskReports
/- What holds of a run in every state it can come to. Each task is on its course, the reports
   of the tasks are those that were heard and those in the channel, the listener has counted
   what it has heard, and where a report finds no listener the listener has failed. -/
namespace ModuleTree

variable {σ : Type}

namespace Run

def sent (s : Run σ) : List Event := s.heard ++ s.channel

def Clashes (settings : Settings) (heard : List Event) (e : RunError) : Prop :=
  settings.graph ∧ ∃ name, e = .graph (.duplicateModule name) ∧ 2 ≤ (namesOf heard).count name

def Judged (m : Setup σ) (expected : Nat) (heard : List Event) : Except RunError Duty → Prop
  | .error e => Clashes m.settings heard e
  | .ok (.listen a) => Counted m.destination m.settings expected heard a ∧
      a.barrier.remaining ≠ 0 ∧ a.written = none
  | .ok (.flush a) => Counted m.destination m.settings expected heard a ∧ a.barrier.remaining = 0

def Quiet (s : Run σ) : Prop := s.flushes = 0 ∧ Noted s.minutes

def Released (m : Setup σ) (s : Run σ) : Prop :=
  ∃ a, Counted m.destination m.settings s.tasks.length s.heard a ∧ a.barrier.remaining = 0

/-- A listener between two reports: jobs are outstanding and it has written nothing, or no
job is and the graph is written. -/
def Waits (m : Setup σ) (s : Run σ) (a : Aggregator) : Prop :=
  Counted m.destination m.settings s.tasks.length s.heard a ∧
    (a.barrier.remaining ≠ 0 ∧ a.written = none ∧ s.Quiet ∨
      a.barrier.remaining = 0 ∧ s.flushes = 1 ∧ Flushed a s.minutes)

def Broke (m : Setup σ) (s : Run σ) (e : RunError) : Prop :=
  Clashes m.settings s.heard e ∧ s.Quiet ∨
    m.settings.graph ∧ (∃ fault, e = .graph fault ∧ FlushFailed m.destination s.minutes fault) ∧
      s.flushes = 1 ∧ s.Released m

/-- Where the listener stands is told by what it has heard. -/
def ListenerSound (m : Setup σ) (s : Run σ) : Prop :=
  match s.listener with
  | .judging rest => s.Quiet ∧
      Procedure.Keeps Noted (fun t v => Noted t ∧ Judged m s.tasks.length s.heard v) s.minutes rest
  | .flushing a rest => s.flushes = 1 ∧
      Counted m.destination m.settings s.tasks.length s.heard a ∧ a.barrier.remaining = 0 ∧
      Procedure.Keeps (fun _ => True) (FlushEnds a) s.minutes rest
  | .listening a => s.Waits m a
  | .ended (.ok a) => s.Waits m a ∧ s.worked.isSome ∧ s.channel = []
  | .ended (.error e) => s.Broke m e

/-- The invariant of a run. Its `nodesFirst` speaks of every early part of the reports, for the
listener has heard one of these, and nobody knows which. -/
structure Valid (m : Setup σ) (jobs : List Job) (s : Run σ) : Prop where
  jobs : s.tasks.map Task.job = jobs
  tasks : ∀ t ∈ s.tasks, t.Sound m.settings
  reports : (s.tasks.flatMap Task.reports).Perm s.sent
  nodesFirst : m.settings.graph →
    ∀ early, early <+: s.sent → finishedIn early ≤ (nodesOf early).length
  left : ∀ result, s.worked = some result → s.busy = 0 ∧ s.WorkComesTo result
  unheard : (∃ t ∈ s.tasks, ¬Heard t.transcript) → ∃ e, s.listener = .ended (.error e)
  listener : s.ListenerSound m

namespace Valid

variable {m : Setup σ} {jobs : List Job} {s : Run σ} {a : Aggregator}

theorem judging {rest : Procedure (Except RunError Duty)} (valid : s.Valid m jobs)
    (at_ : s.listener = .judging rest) :
    s.Quiet ∧ Procedure.Keeps Noted (fun t v => Noted t ∧ Judged m s.tasks.length s.heard v)
      s.minutes rest := by
  have sound := valid.listener
  unfold ListenerSound at sound
  rwa [at_] at sound

theorem flushing {rest : Procedure (Except RunError Aggregator)} (valid : s.Valid m jobs)
    (at_ : s.listener = .flushing a rest) :
    s.flushes = 1 ∧ Counted m.destination m.settings s.tasks.length s.heard a ∧
      a.barrier.remaining = 0 ∧
      Procedure.Keeps (fun _ => True) (FlushEnds a) s.minutes rest := by
  have sound := valid.listener
  unfold ListenerSound at sound
  rwa [at_] at sound

theorem listening (valid : s.Valid m jobs) (at_ : s.listener = .listening a) : s.Waits m a := by
  have sound := valid.listener
  unfold ListenerSound at sound
  rwa [at_] at sound

theorem ended_ok (valid : s.Valid m jobs) (at_ : s.listener = .ended (.ok a)) :
    s.Waits m a ∧ s.worked.isSome ∧ s.channel = [] := by
  have sound := valid.listener
  unfold ListenerSound at sound
  rwa [at_] at sound

theorem ended_error {e : RunError} (valid : s.Valid m jobs)
    (at_ : s.listener = .ended (.error e)) : s.Broke m e := by
  have sound := valid.listener
  unfold ListenerSound at sound
  rwa [at_] at sound

end Valid

end Run

namespace Setup
open Run

variable {m : Setup σ} {jobs : List Job} {start : σ} {s s' : Run σ}

theorem step_tasks (step : m.Step s s') :
    s'.tasks = s.tasks ∨ ∃ before t t' after, s.tasks = before ++ t :: after ∧
      s'.tasks = before ++ t' :: after ∧ t.Advances t' := by
  cases step with
  | take tasks fresh => exact .inr ⟨_, _, _, _, tasks, rfl, .starts⟩
  | work tasks started rest quiet => exact .inr ⟨_, _, _, _, tasks, rfl, .answered started rest _⟩
  | send tasks started rest => exact .inr ⟨_, _, _, _, tasks, rfl, .answered started rest _⟩
  | refuse tasks started rest => exact .inr ⟨_, _, _, _, tasks, rfl, .answered started rest _⟩
  | follow => rename_i verdict _; rcases verdict with e | (a | a) <;> exact .inl rfl
  | flushed => rename_i outcome _; cases outcome <;> exact .inl rfl
  | leave | judge | write | hear | close => exact .inl rfl

theorem step_jobs (step : m.Step s s') : s'.tasks.map Task.job = s.tasks.map Task.job := by
  rcases step_tasks step with same | ⟨before, t, t', after, old, new, advances⟩
  · rw [same]
  · rw [old, new]
    simp [Task.job_advances advances]

theorem step_length (step : m.Step s s') : s'.tasks.length = s.tasks.length := by
  have := congrArg List.length (step_jobs step)
  simpa using this

theorem forall_replaced {α : Type} {P : α → Prop} {before after : List α} {t t' : α}
    (all : ∀ u ∈ before ++ t :: after, P u) (new : P t') :
    ∀ u ∈ before ++ t' :: after, P u := by
  intro u mem
  rcases List.mem_append.mp mem with earlier | later
  · exact all u (by simp [earlier])
  · rcases List.mem_cons.mp later with here | later
    · exact here ▸ new
    · exact all u (by simp [later])

theorem step_sound (step : m.Step s s') (sound : ∀ t ∈ s.tasks, t.Sound m.settings) :
    ∀ t ∈ s'.tasks, t.Sound m.settings := by
  rcases step_tasks step with same | ⟨before, t, t', after, old, new, advances⟩
  · rwa [same]
  · rw [old] at sound
    rw [new]
    exact forall_replaced sound (Task.sound_advances (sound t (by simp)) advances)

theorem step_sent (step : m.Step s s') :
    (s'.sent = s.sent ∧ s'.tasks.flatMap Task.reports = s.tasks.flatMap Task.reports) ∨
    ∃ event, s'.sent = s.sent ++ [event] ∧
      (s'.tasks.flatMap Task.reports).Perm (s.tasks.flatMap Task.reports ++ [event]) := by
  cases step with
  | take tasks => exact .inl ⟨rfl, by rw [tasks]; simp [Task.reports]⟩
  | work tasks _ _ quiet =>
    refine .inl ⟨rfl, ?_⟩
    rw [tasks]
    simp [Task.reports_answered, (Task.quiet_of_no_report quiet _).1]
  | @send before after t event next tasks =>
    refine .inr ⟨event, by simp [sent], ?_⟩
    rw [tasks]
    simp only [List.flatMap_append, List.flatMap_cons, Task.reports_answered, List.append_assoc]
    exact (List.perm_append_comm.append_left _).append_left _
  | refuse tasks =>
    refine .inl ⟨rfl, ?_⟩
    rw [tasks]
    simp [Task.reports_answered, Exchange.heard?]
  | follow => rename_i verdict _; rcases verdict with e | (a | a) <;> exact .inl ⟨rfl, rfl⟩
  | flushed => rename_i outcome _; cases outcome <;> exact .inl ⟨rfl, rfl⟩
  | hear _ channel => exact .inl ⟨by simp [sent, channel], rfl⟩
  | leave | judge | write | close => exact .inl ⟨rfl, rfl⟩

theorem step_reports (step : m.Step s s')
    (reports : (s.tasks.flatMap Task.reports).Perm s.sent) :
    (s'.tasks.flatMap Task.reports).Perm s'.sent := by
  rcases step_sent step with ⟨sent, same⟩ | ⟨event, sent, more⟩
  · rwa [sent, same]
  · rw [sent]
    exact more.trans (reports.append_right [event])

theorem step_nodesFirst (step : m.Step s s') (valid : s.Valid m jobs)
    (graph : m.settings.graph) {early : List Event} (before : early <+: s'.sent) :
    finishedIn early ≤ (nodesOf early).length := by
  rcases step_sent step with ⟨sent, _⟩ | ⟨event, sent, _⟩
  · rw [sent] at before
    exact valid.nodesFirst graph early before
  · rw [sent, List.prefix_concat_iff] at before
    rcases before with whole | before
    -- All reports together are those of the tasks, each of which keeps to the order.
    · have all := step_reports step valid.reports
      rw [sent, ← whole] at all
      have ballot := (Task.nodesOf_tasks (step_sound step valid.tasks)).2.1 graph
      calc finishedIn early = finishedIn (s'.tasks.flatMap Task.reports) :=
            (all.countP_eq Event.isFinished).symm
        _ ≤ (nodesOf (s'.tasks.flatMap Task.reports)).length := ballot
        _ = (nodesOf early).length := (all.filterMap Event.node?).length_eq
    · exact valid.nodesFirst graph early before

theorem busy_pos {before after : List Task} {t : Task} {call : Call}
    {next : call.Answer → Procedure (Except RunError Unit)} (tasks : s.tasks = before ++ t :: after)
    (started : t.started) (rest : t.rest = .ask call next) : 0 < s.busy := by
  refine List.countP_pos_iff.mpr ⟨t, by simp [tasks], ?_⟩
  simp [Task.isBusy, started, Task.result?, rest]

theorem worked_of_asking {before after : List Task} {t : Task} {call : Call}
    {next : call.Answer → Procedure (Except RunError Unit)} (valid : s.Valid m jobs)
    (tasks : s.tasks = before ++ t :: after) (started : t.started)
    (rest : t.rest = .ask call next) : s.worked = none := by
  have busy := busy_pos tasks started rest
  cases worked : s.worked with
  | none => rfl
  | some result =>
    have idle := (valid.left result worked).1
    omega

theorem step_left (step : m.Step s s') (valid : s.Valid m jobs)
    (result : Except RunError Unit) (worked : s'.worked = some result) :
    s'.busy = 0 ∧ s'.WorkComesTo result := by
  cases step with
  | take _ _ open_ =>
    change s.worked = some result at worked
    simp [open_] at worked
  | work tasks started rest | send tasks started rest | refuse tasks started rest =>
    have open_ := worked_of_asking valid tasks started rest
    change s.worked = some result at worked
    simp [open_] at worked
  | leave _ idle comes =>
    cases worked
    exact ⟨idle, comes⟩
  | follow =>
    rename_i verdict _
    rcases verdict with e | (a | a) <;> exact valid.left result worked
  | flushed => rename_i outcome _; cases outcome <;> exact valid.left result worked
  | judge | write | hear | close => exact valid.left result worked

theorem drained {a : Aggregator} (valid : s.Valid m jobs)
    (counted : Counted m.destination m.settings s.tasks.length s.heard a)
    (released : a.barrier.remaining = 0) :
    s.channel = [] ∧ ∀ t ∈ s.tasks, ∃ module, t.AtStage m.settings (.finished module) := by
  have all : finishedIn s.heard = s.tasks.length := by
    have := counted.remaining
    omega
  obtain ⟨bound, finish⟩ := Task.finishedIn_tasks valid.tasks
  obtain ⟨few, _, none⟩ := Task.nodesOf_tasks valid.tasks
  have count : finishedIn (s.tasks.flatMap Task.reports) = finishedIn s.sent :=
    valid.reports.countP_eq Event.isFinished
  have length := (valid.reports.filterMap Event.node?).length_eq
  change (nodesOf _).length = (nodesOf s.sent).length at length
  rw [sent, finishedIn_append] at count
  rw [sent, nodesOf_append, List.length_append] at length
  refine ⟨eq_nil_of_counts ?_ (by omega), finish (by omega)⟩
  -- No node is under way either: there is one for each job, and all were heard before.
  refine List.eq_nil_of_length_eq_zero ?_
  by_cases graph : m.settings.graph
  · have := valid.nodesFirst graph s.heard (List.prefix_append _ _)
    omega
  · have := congrArg List.length (none graph)
    simp only [List.length_nil] at this
    omega

theorem exists_unreplaced {P : Task → Prop} {before after : List Task} {t t' : Task}
    (some : ∃ u ∈ before ++ t' :: after, P u) (back : P t' → P t) :
    ∃ u ∈ before ++ t :: after, P u := by
  obtain ⟨u, mem, holds⟩ := some
  rcases List.mem_append.mp mem with earlier | later
  · exact ⟨u, by simp [earlier], holds⟩
  · rcases List.mem_cons.mp later with here | later
    · exact ⟨t, by simp, back (here ▸ holds)⟩
    · exact ⟨u, by simp [later], holds⟩

theorem left_of_ended {a : Aggregator} (valid : s.Valid m jobs)
    (ended : s.listener = .ended (.ok a)) : s.worked ≠ none := by
  have left_ := (valid.ended_ok ended).2.1
  intro none
  simp [none] at left_

theorem step_unheard (step : m.Step s s') (valid : s.Valid m jobs)
    (some : ∃ t ∈ s'.tasks, ¬Heard t.transcript) : ∃ e, s'.listener = .ended (.error e) := by
  have back {before after : List Task} {t t' : Task} (tasks : s.tasks = before ++ t :: after)
      (some : ∃ u ∈ before ++ t' :: after, ¬Heard u.transcript)
      (kept : Heard t.transcript → Heard t'.transcript) : ∃ e, s.listener = .ended (.error e) := by
    refine valid.unheard ?_
    rw [tasks]
    exact exists_unreplaced some fun unheard heard => unheard (kept heard)
  cases step with
  | take tasks => exact back tasks some id
  | work tasks _ _ quiet =>
    exact back tasks some fun heard =>
      heard_concat heard (Task.quiet_of_no_report quiet _).2
  | send tasks => exact back tasks some fun heard => heard_concat heard rfl
  | @refuse _ _ _ _ _ outcome tasks started rest gone =>
    cases outcome with
    | error e => exact ⟨e, gone⟩
    | ok a =>
      -- A listener ends well only after all workers have left.
      exact absurd (worked_of_asking valid tasks started rest) (left_of_ended valid gone)
  | leave => exact valid.unheard some
  -- The listener still does something, so every report so far was heard.
  | judge at_ | write at_ | hear at_ | close at_ =>
    obtain ⟨e, ended⟩ := valid.unheard some
    simp [ended] at at_
  | follow at_ =>
    rename_i verdict
    have some : ∃ t ∈ s.tasks, ¬Heard t.transcript := by
      rcases verdict with e | (a | a) <;> exact some
    obtain ⟨e, ended⟩ := valid.unheard some
    simp [ended] at at_
  | flushed at_ =>
    rename_i outcome
    have some : ∃ t ∈ s.tasks, ¬Heard t.transcript := by cases outcome <;> exact some
    obtain ⟨e, ended⟩ := valid.unheard some
    simp [ended] at at_

theorem listener_kept (valid : s.Valid m jobs) (open_ : s.worked = none)
    (listener : s'.listener = s.listener) (length : s'.tasks.length = s.tasks.length)
    (heard : s'.heard = s.heard) (minutes : s'.minutes = s.minutes)
    (flushes : s'.flushes = s.flushes) : s'.ListenerSound m := by
  have sound := valid.listener
  unfold ListenerSound at sound ⊢
  unfold Waits Broke Quiet Released at sound ⊢
  rw [listener, length, heard, minutes, flushes]
  rcases standing : s.listener with rest | ⟨a, rest⟩ | a | (e | a) <;>
    simp only [standing] at sound ⊢
  · exact sound
  · exact sound
  · exact sound
  · exact sound
  · simp [open_] at sound

theorem follow_sound {verdict : Except RunError Duty} (quiet : s.Quiet)
    (judged : Judged m s.tasks.length s.heard verdict) : (s.follow verdict).ListenerSound m := by
  rcases verdict with e | (a | a)
  · exact .inl ⟨judged, quiet⟩
  · exact ⟨judged.1, .inl ⟨judged.2.1, judged.2.2, quiet⟩⟩
  · refine ⟨?_, judged.1, judged.2, flush_keeps a (unwritten_of_noted quiet.2)⟩
    exact congrArg (· + 1) quiet.1

theorem afterFlush_sound {a : Aggregator} {outcome : Except RunError Aggregator}
    (flushes : s.flushes = 1) (counted : Counted m.destination m.settings s.tasks.length s.heard a)
    (released : a.barrier.remaining = 0) (ends : FlushEnds a s.minutes outcome) :
    (s.afterFlush outcome).ListenerSound m := by
  cases outcome with
  | error e =>
    obtain ⟨wanted, fault, same, failed⟩ := ends
    exact .inr ⟨counted.graph_wanted.mp wanted, ⟨fault, same, counted.destination ▸ failed⟩,
      flushes, a, counted, released⟩
  | ok b =>
    obtain ⟨⟨written, same⟩, flushed⟩ := ends
    subst same
    exact ⟨⟨counted.destination, counted.remaining, counted.accumulator, counted.distinct⟩,
      .inr ⟨released, flushes, flushed⟩⟩

theorem judge_judged {expected : Nat} {heard : List Event} {a : Aggregator} (event : Event)
    (counted : Counted m.destination m.settings expected heard a)
    (outstanding : a.barrier.remaining ≠ 0) (unwritten : a.written = none) :
    Judged m expected (heard ++ [event]) (a.judge event) := by
  cases event with
  | compiled node requires =>
    rcases judge_compiled counted node requires with
      ⟨b, verdict, counted, barrier, written⟩ | ⟨graph, twice, verdict⟩
    · rw [verdict]
      exact ⟨counted, barrier ▸ outstanding, written ▸ unwritten⟩
    · rw [verdict]
      refine ⟨graph, node, rfl, ?_⟩
      have once := List.count_pos_iff.mpr twice
      simp only [namesOf, nodesOf_append, List.map_append, List.count_append] at once ⊢
      simp [nodesOf, Event.node?] at once ⊢
      omega
  | finished output =>
    obtain ⟨left, more⟩ := Nat.exists_eq_succ_of_ne_zero outstanding
    obtain ⟨b, verdict, counted, remaining, written⟩ := judge_finished counted output more
    rw [verdict]
    by_cases last : left = 0
    · rw [if_pos last]
      exact ⟨counted, remaining.trans last⟩
    · rw [if_neg last]
      exact ⟨counted, remaining ▸ last, written ▸ unwritten⟩

theorem step_listener (step : m.Step s s') (valid : s.Valid m jobs) : s'.ListenerSound m := by
  have length := step_length step
  cases step with
  | take _ _ open_ => exact listener_kept valid open_ rfl length rfl rfl rfl
  | work tasks started rest | send tasks started rest | refuse tasks started rest =>
    have open_ := worked_of_asking valid tasks started rest
    exact listener_kept valid open_ rfl length rfl rfl rfl
  | leave open_ => exact listener_kept valid open_ rfl rfl rfl rfl rfl
  | judge at_ =>
    obtain ⟨quiet, keeps⟩ := valid.judging at_
    exact ⟨⟨quiet.1, (keeps _).1⟩, (keeps _).2⟩
  | follow at_ =>
    obtain ⟨quiet, _, judged⟩ := valid.judging at_
    exact follow_sound quiet judged
  | write at_ =>
    obtain ⟨flushes, counted, released, keeps⟩ := valid.flushing at_
    exact ⟨flushes, counted, released, (keeps _).2⟩
  | flushed at_ =>
    obtain ⟨flushes, counted, released, ends⟩ := valid.flushing at_
    exact afterFlush_sound flushes counted released ends
  | @hear a event later at_ channel =>
    obtain ⟨counted, ⟨outstanding, unwritten, quiet⟩ | ⟨released, _⟩⟩ := valid.listening at_
    · exact ⟨quiet, saying_keeps quiet.2 (a.remark? event)
        (judge_judged event counted outstanding unwritten)⟩
    · -- After the last job there is nothing more to hear.
      have empty := (drained valid counted released).1
      simp [channel] at empty
  | close at_ channel left_ =>
    exact ⟨valid.listening at_, by simp [left_], channel⟩

theorem begin_valid (m : Setup σ) (jobs : List Job) (start : σ) :
    (m.begin jobs start).Valid m jobs where
  jobs := by
    simp only [begin, List.map_map]
    exact List.map_id'' (fun _ => rfl) jobs
  tasks t mem := by
    obtain ⟨job, _, same⟩ := List.mem_map.mp mem
    exact same ▸ Task.new_sound m.settings job
  reports := by simp [begin, sent, List.flatMap_map, Task.reports, Task.new]
  nodesFirst _ early before := by
    rw [List.prefix_nil.mp before]
    exact Nat.le_refl 0
  left _ worked := by simp [begin] at worked
  unheard some := by
    obtain ⟨t, mem, unheard⟩ := some
    obtain ⟨job, _, same⟩ := List.mem_map.mp mem
    exact absurd (by simp [← same, Task.new, Heard]) unheard
  listener := by
    have noted : Noted [] := by simp [Noted]
    refine ⟨⟨rfl, noted⟩, ?_⟩
    have counted := new_counted m.destination m.settings (m.begin jobs start).tasks.length
    have length : (m.begin jobs start).tasks.length = jobs.length := by simp [begin]
    rw [length] at counted ⊢
    unfold Aggregator.opening
    split
    · rename_i released
      exact saying_keeps noted _ ⟨counted, by simpa [Barrier.isReleased] using released⟩
    · rename_i outstanding
      exact saying_keeps noted none ⟨counted, by simpa [Barrier.isReleased] using outstanding, rfl⟩

theorem step_valid (step : m.Step s s') (valid : s.Valid m jobs) : s'.Valid m jobs where
  jobs := (step_jobs step).trans valid.jobs
  tasks := step_sound step valid.tasks
  reports := step_reports step valid.reports
  nodesFirst graph _ := step_nodesFirst step valid graph
  left := step_left step valid
  unheard := step_unheard step valid
  listener := step_listener step valid

theorem valid_of_reachable (reach : m.Reachable jobs start s) : s.Valid m jobs := by
  induction reach with
  | start => exact begin_valid m jobs start
  | step _ step ih => exact step_valid step ih

def Answered (m : Setup σ) (x : Exchange) : Prop :=
  x.call.isReport ∨ ∃ w, x.answer = (m.environment x.call w).1

theorem answered_of_reachable (reach : m.Reachable jobs start s) :
    ∀ t ∈ s.tasks, ∀ x ∈ t.transcript, m.Answered x := by
  induction reach with
  | start =>
    intro t mem
    obtain ⟨job, _, same⟩ := List.mem_map.mp mem
    simp [← same, Task.new]
  | @step s s' _ step ih =>
    cases step with
    | @take before after t tasks =>
      rw [tasks] at ih
      exact forall_replaced ih (ih t (by simp))
    | work tasks =>
      rw [tasks] at ih
      exact forall_replaced ih (forall_concat (ih _ (by simp)) (.inr ⟨_, rfl⟩))
    | send tasks =>
      rw [tasks] at ih
      exact forall_replaced ih (forall_concat (ih _ (by simp)) (.inl rfl))
    | refuse tasks =>
      rw [tasks] at ih
      exact forall_replaced ih (forall_concat (ih _ (by simp)) (.inl rfl))
    | follow =>
      rename_i verdict _
      rcases verdict with e | (a | a) <;> exact ih
    | flushed =>
      rename_i outcome _
      cases outcome <;> exact ih
    | leave | judge | write | hear | close => exact ih

end Setup

end ModuleTree
