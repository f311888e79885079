import Mathlib
import ModuleTree.Proofs.Run.InOrder
import ModuleTree.Proofs.Run.JobCalls
import ModuleTree.Proofs.Run.Outcome
import ModuleTree.Proofs.Run.SequentialSchedule
/- A run with one worker. The listener may lag behind it as far as the channel allows, so the
   worker may go on after a name was reported twice, fail by itself or find nobody listening.
   Whatever it does, the run comes to what its jobs come to in order. -/
namespace ModuleTree

variable {σ τ : Type}

namespace Task

theorem rest_of_result {t : Task} {result : Except RunError Unit} (h : t.result? = some result) :
    t.rest = .done result := by
  unfold result? at h
  split at h
  · rename_i same rest
    rw [rest, Option.some.inj h]
  · contradiction

end Task

namespace Run

def TakesTurns (s : Run σ) : Prop :=
  s.tasks.Pairwise fun earlier t => t.started → earlier.result? = some (.ok ())

def graphOutcome? (m : Setup σ) (s : Run σ) : Option (Except RunError (Option Path)) :=
  match s.listener with
  | .judging _ => none
  | .flushing _ rest => some ((rest.run m.environment s.surroundings).1.map Aggregator.written)
  | .listening a => some (.ok a.written)
  | .ended outcome => some (outcome.map Aggregator.written)

def outlook (m : Setup σ) (s : Run σ) : Except RunError Unit × σ × List Event :=
  inOrder m.environment.attentive (s.tasks.map Task.rest) (s.surroundings, s.sent)

def Leads (m : Setup σ) (view : σ → τ) (jobs : List Job) (start : σ) (s : Run σ) : Prop :=
  (s.outlook m).1 = (m.sweep jobs start).1 ∧ (s.outlook m).2.2 = (m.sweep jobs start).2.2 ∧
    (s.flushes = 0 → view (s.outlook m).2.1 = view (m.sweep jobs start).2.1)

/-- A run with one worker is on its way to what its jobs come to in order, for as long as every
report was heard. After that the listener has found the first name that was there before. -/
structure OnCourse (m : Setup σ) (view : σ → τ) (jobs : List Job) (start : σ) (s : Run σ) :
    Prop where
  turns : s.TakesTurns
  heard : s.heard <+: (m.sweep jobs start).2.2
  distinct : m.settings.graph → (namesOf s.heard.dropLast).Nodup
  leads : (∀ t ∈ s.tasks, Heard t.transcript) → s.Leads m view jobs start
  graph : s.flushes = 1 → s.graphOutcome? m =
    some (m.flushOutcome (m.sweep jobs start).2.2 (m.sweep jobs start).2.1)

end Run

namespace Setup
open Run

variable {m : Setup σ} {view : σ → τ} {jobs : List Job} {start : σ} {s s' : Run σ}

theorem outlook_of_succeeded (succeeded : ∀ t ∈ s.tasks, t.result? = some (.ok ())) :
    s.outlook m = (.ok (), s.surroundings, s.sent) := by
  have done : ∀ p ∈ s.tasks.map Task.rest, p = .done (.ok ()) := by
    intro p mem
    obtain ⟨t, there, same⟩ := List.mem_map.mp mem
    exact same ▸ Task.rest_of_result (succeeded t there)
  have all : inOrder m.environment.attentive (s.tasks.map Task.rest ++ []) _ = _ :=
    inOrder_done done [] (s.surroundings, s.sent)
  rwa [List.append_nil] at all

theorem leads_of_succeeded (succeeded : ∀ t ∈ s.tasks, t.result? = some (.ok ()))
    (begun : s.flushes ≠ 0) (worked : .ok () = (m.sweep jobs start).1)
    (reports : s.sent = (m.sweep jobs start).2.2) : s.Leads m view jobs start := by
  unfold Leads
  rw [outlook_of_succeeded succeeded]
  exact ⟨worked, reports, fun none => absurd none begun⟩

theorem outlook_at {before after : List Task} {t : Task} (tasks : s.tasks = before ++ t :: after)
    (succeeded : ∀ u ∈ before, u.result? = some (.ok ())) :
    s.outlook m = inOrder m.environment.attentive (t.rest :: after.map Task.rest)
      (s.surroundings, s.sent) := by
  have done : ∀ p ∈ before.map Task.rest, p = .done (.ok ()) := by
    intro p mem
    obtain ⟨u, there, same⟩ := List.mem_map.mp mem
    exact same ▸ Task.rest_of_result (succeeded u there)
  unfold outlook
  rw [tasks, List.map_append, List.map_cons]
  exact inOrder_done done _ _

theorem inOrder_ask {answer : Environment σ} {call : Call}
    {next : call.Answer → Procedure (Except RunError Unit)}
    (rest : List (Procedure (Except RunError Unit))) (w : σ) :
    inOrder answer (.ask call next :: rest) w =
      inOrder answer (next (answer call w).1 :: rest) (answer call w).2 := rfl

theorem earlier_succeeded {before after : List Task} {t : Task}
    (tasks : s.tasks = before ++ t :: after) (started : t.started) (turns : s.TakesTurns) :
    ∀ u ∈ before, u.result? = some (.ok ()) := by
  intro u mem
  unfold TakesTurns at turns
  rw [tasks] at turns
  exact (List.pairwise_append.mp turns).2.2 u mem t List.mem_cons_self started

theorem turns_replaced {before after : List Task} {t t' : Task}
    (tasks : s.tasks = before ++ t :: after) (tasks' : s'.tasks = before ++ t' :: after)
    (turns : s.TakesTurns) (succeeded : ∀ u ∈ before, u.result? = some (.ok ()))
    (kept : t.result? = some (.ok ()) → t'.result? = some (.ok ())) : s'.TakesTurns := by
  unfold TakesTurns at turns ⊢
  rw [tasks] at turns
  obtain ⟨first, rest, across⟩ := List.pairwise_append.mp turns
  obtain ⟨here, rest⟩ := List.pairwise_cons.mp rest
  rw [tasks']
  refine List.pairwise_append.mpr ⟨first, List.pairwise_cons.mpr ⟨?_, rest⟩, ?_⟩
  · intro u mem started
    exact kept (here u mem started)
  · intro u mem v later started
    rcases List.mem_cons.mp later with same | later
    · exact succeeded u mem
    · exact across u mem v (List.mem_cons_of_mem t later) started

theorem step_turns (alone : m.workers = 1) (step : m.Step s s') (turns : s.TakesTurns) :
    s'.TakesTurns := by
  cases step with
  | @take before after t tasks fresh _ free turn =>
    obtain ⟨started, unfailed⟩ := turn alone
    have idle : s.busy = 0 := by omega
    have earlier : ∀ u ∈ before, u.result? = some (.ok ()) := by
      intro u mem
      have there : u ∈ s.tasks := by simp [tasks, mem]
      have unbusy := List.countP_eq_zero.mp idle u there
      cases result : u.result? with
      | none => simp [Task.isBusy, started u mem, result] at unbusy
      | some outcome =>
        cases outcome with
        | ok _ => rfl
        | error e => exact absurd ⟨u, there, e, result⟩ unfailed
    exact turns_replaced tasks rfl turns earlier id
  | work tasks started rest | send tasks started rest | refuse tasks started rest =>
    have earlier := earlier_succeeded tasks started turns
    exact turns_replaced tasks rfl turns earlier fun done => by simp [Task.result?, rest] at done
  | follow => rename_i verdict _; rcases verdict with e | (a | a) <;> exact turns
  | flushed => rename_i outcome _; cases outcome <;> exact turns
  | leave | judge | write | hear | close => exact turns

theorem begin_turns (m : Setup σ) (jobs : List Job) (start : σ) :
    (m.begin jobs start).TakesTurns := by
  refine List.pairwise_of_forall_mem_list fun earlier _ t mem started => ?_
  obtain ⟨job, _, same⟩ := List.mem_map.mp mem
  simp [← same, Task.new] at started

theorem turns_of_reachable (alone : m.workers = 1) (reach : m.Reachable jobs start s) :
    s.TakesTurns := by
  induction reach with
  | start => exact begin_turns m jobs start
  | step _ step turns => exact step_turns alone step turns

theorem all_heard (valid : s.Valid m jobs) (unbroken : ∀ e, s.listener ≠ .ended (.error e)) :
    ∀ t ∈ s.tasks, Heard t.transcript := by
  intro t mem
  by_cases heard : Heard t.transcript
  · exact heard
  · obtain ⟨e, ended⟩ := valid.unheard ⟨t, mem, heard⟩
    exact absurd ended (unbroken e)

theorem heard_of_succeeded (valid : s.Valid m jobs)
    (succeeded : ∀ t ∈ s.tasks, t.result? = some (.ok ())) :
    ∀ t ∈ s.tasks, Heard t.transcript := by
  intro t mem
  exact (Task.sound_ends (valid.tasks t mem) (succeeded t mem)).2

theorem heard_unanswered {before after : List Task} {t : Task} {call : Call} {answer : call.Answer}
    {next : call.Answer → Procedure (Except RunError Unit)}
    (heard : ∀ u ∈ before ++ t.answered call answer next :: after, Heard u.transcript) :
    ∀ u ∈ before ++ t :: after, Heard u.transcript := by
  refine forall_replaced heard fun x mem => ?_
  exact heard (t.answered call answer next) (by simp) x (List.mem_append_left _ mem)

theorem step_leads (heedless : m.environment.Heedless view) (valid : s.Valid m jobs)
    (orderly : ∀ t ∈ s.tasks, t.Orderly m.settings) (course : s.OnCourse m view jobs start)
    (step : m.Step s s') (heard : ∀ t ∈ s'.tasks, Heard t.transcript) :
    s'.Leads m view jobs start := by
  have kept (heard : ∀ t ∈ s.tasks, Heard t.transcript) (same : s'.outlook m = s.outlook m)
      (flushes : s'.flushes = s.flushes) : s'.Leads m view jobs start := by
    unfold Leads
    rw [same, flushes]
    exact course.leads heard
  cases step with
  | @take before after t tasks =>
    refine kept ?_ ?_ rfl
    · rw [tasks]
      exact forall_replaced heard (heard { t with started := true } (by simp))
    · simp [Run.outlook, tasks, sent]
  | @work before after t call next tasks started rest quiet =>
    have earlier := earlier_succeeded tasks started course.turns
    refine kept ?_ ?_ rfl
    · rw [tasks]
      exact heard_unanswered heard
    · rw [outlook_at rfl earlier, outlook_at tasks earlier, rest, inOrder_ask,
        attentive_quiet quiet]
      rfl
  | @send before after t event next tasks started rest =>
    have earlier := earlier_succeeded tasks started course.turns
    refine kept ?_ ?_ rfl
    · rw [tasks]
      exact heard_unanswered heard
    · rw [outlook_at rfl earlier, outlook_at tasks earlier, rest, inOrder_ask]
      simp [Environment.attentive, Task.answered, sent]
  | @refuse before after t event next outcome =>
    have unheard := heard (t.answered (.report event) false next) (by simp)
    have told := unheard ⟨.report event, false⟩ (by simp [Task.answered])
    cases told
  | leave | close => exact kept heard rfl rfl
  | @judge call next at_ =>
    obtain ⟨_, keeps⟩ := valid.judging at_
    obtain ⟨notice, note⟩ := (keeps (m.environment call s.surroundings).1).1 _
      (List.mem_append_right _ List.mem_cons_self)
    cases note
    obtain ⟨worked, reports, shown⟩ := course.leads heard
    obtain ⟨told, left_, said⟩ := attentive_alike heedless (s.tasks.map Task.rest) s.sent
      (heedless.note notice s.surroundings)
    exact ⟨told.trans worked, said.trans reports, fun none => left_.trans (shown none)⟩
  | @follow verdict at_ =>
    rcases verdict with e | (a | a)
    · exact kept heard rfl rfl
    · exact kept heard rfl rfl
    · obtain ⟨worked, reports, _⟩ := course.leads heard
      refine ⟨worked, reports, fun none => ?_⟩
      simp [Run.follow] at none
  | @write a call next at_ =>
    obtain ⟨flushes, counted, released, _⟩ := valid.flushing at_
    -- The tasks have nothing left to do, whatever becomes of the files.
    have succeeded := succeeded_of_released valid orderly ⟨a, counted, released⟩
    obtain ⟨worked, reports, _⟩ := course.leads heard
    rw [outlook_of_succeeded succeeded] at worked reports
    have begun : s.flushes ≠ 0 := by omega
    exact leads_of_succeeded succeeded begun worked reports
  | @flushed a outcome => cases outcome <;> exact kept heard rfl rfl
  | hear _ channel =>
    refine kept heard ?_ rfl
    simp [Run.outlook, sent, channel]

theorem step_heard (valid : s.Valid m jobs) (course : s.OnCourse m view jobs start)
    (step : m.Step s s') : s'.heard <+: (m.sweep jobs start).2.2 := by
  cases step with
  | @hear a event later at_ channel =>
    have heard := all_heard valid fun e ended => by simp [at_] at ended
    obtain ⟨_, reports, _⟩ := course.leads heard
    have sent := inOrder_reports m.environment (s.tasks.map Task.rest) s.surroundings s.sent
    change s.sent <+: (s.outlook m).2.2 at sent
    rw [reports, Run.sent, channel] at sent
    have more : s.heard ++ [event] <+: s.heard ++ event :: later :=
      List.prefix_append_right_inj s.heard |>.mpr (List.prefix_append [event] later)
    exact more.trans sent
  | follow => rename_i verdict _; rcases verdict with e | (a | a) <;> exact course.heard
  | flushed => rename_i outcome _; cases outcome <;> exact course.heard
  | take | work | send | refuse | leave | judge | write | close => exact course.heard

theorem step_distinct (valid : s.Valid m jobs) (course : s.OnCourse m view jobs start)
    (step : m.Step s s') (graph : m.settings.graph) : (namesOf s'.heard.dropLast).Nodup := by
  cases step with
  | @hear a event later at_ channel =>
    rw [List.dropLast_concat]
    exact (valid.listening at_).1.distinct graph
  | follow => rename_i verdict _; rcases verdict with e | (a | a) <;> exact course.distinct graph
  | flushed => rename_i outcome _; cases outcome <;> exact course.distinct graph
  | take | work | send | refuse | leave | judge | write | close => exact course.distinct graph

theorem flush_written {a : Aggregator} {expected : Nat} {heard : List Event} {w : σ}
    (counted : Counted m.destination m.settings expected heard a) :
    (a.flush.run m.environment w).1.map Aggregator.written = m.flushOutcome heard w := by
  unfold Aggregator.flush flushOutcome
  rw [Procedure.run_bind, counted.destination, counted.accumulator]
  rcases ((Accumulator.ofNodes m.settings.graph (nodesOf heard)).flush m.destination).run
    m.environment w with ⟨outcome, w'⟩
  cases outcome <;> rfl

theorem flushOutcome_alike (heedless : m.environment.Heedless view) (reports : List Event)
    {w w' : σ} (same : view w = view w') :
    m.flushOutcome reports w = m.flushOutcome reports w' := by
  unfold flushOutcome
  rw [(Procedure.run_alike heedless _ same).1]

theorem graph_of_released (heedless : m.environment.Heedless view) (valid : s.Valid m jobs)
    (orderly : ∀ t ∈ s.tasks, t.Orderly m.settings) (course : s.OnCourse m view jobs start)
    (unbegun : s.flushes = 0) {a : Aggregator}
    (counted : Counted m.destination m.settings s.tasks.length s.heard a)
    (released : a.barrier.remaining = 0) :
    (a.flush.run m.environment s.surroundings).1.map Aggregator.written =
      m.flushOutcome (m.sweep jobs start).2.2 (m.sweep jobs start).2.1 := by
  have succeeded := succeeded_of_released valid orderly ⟨a, counted, released⟩
  obtain ⟨_, reports, shown⟩ := course.leads (heard_of_succeeded valid succeeded)
  have shown := shown unbegun
  rw [outlook_of_succeeded succeeded] at reports shown
  simp only [sent, (drained valid counted released).1, List.append_nil] at reports
  rw [flush_written counted, flushOutcome_alike heedless _ shown, reports]

theorem step_graph (heedless : m.environment.Heedless view) (valid : s.Valid m jobs)
    (orderly : ∀ t ∈ s.tasks, t.Orderly m.settings) (course : s.OnCourse m view jobs start)
    (step : m.Step s s') (begun : s'.flushes = 1) : s'.graphOutcome? m =
      some (m.flushOutcome (m.sweep jobs start).2.2 (m.sweep jobs start).2.1) := by
  cases step with
  | take | send | refuse | leave => exact course.graph begun
  | @work _ _ t _ _ tasks _ rest =>
    -- Nobody asks for anything any more.
    rcases quiet_or_released valid with ⟨none, _⟩ | ⟨_, released⟩
    · change s.flushes = 1 at begun
      omega
    · have result := succeeded_of_released valid orderly released t (by simp [tasks])
      simp [Task.result?, rest] at result
  | judge at_ =>
    have none := (valid.judging at_).1.1
    change s.flushes = 1 at begun
    omega
  | @follow verdict at_ =>
    obtain ⟨⟨none, _⟩, _, judged⟩ := valid.judging at_
    rcases verdict with e | (a | a)
    · change s.flushes = 1 at begun
      omega
    · change s.flushes = 1 at begun
      omega
    · exact congrArg some (graph_of_released heedless valid orderly course none judged.1 judged.2)
  | write at_ =>
    have before := course.graph begun
    simp only [graphOutcome?, at_] at before
    exact before
  | @flushed a outcome at_ =>
    cases outcome with
    | error e =>
      have before := course.graph begun
      simp only [graphOutcome?, at_] at before
      exact before
    | ok b =>
      have before := course.graph begun
      simp only [graphOutcome?, at_] at before
      exact before
  | hear at_ channel =>
    obtain ⟨counted, ⟨_, _, none, _⟩ | ⟨released, _⟩⟩ := valid.listening at_
    · change s.flushes = 1 at begun
      omega
    · have empty := (drained valid counted released).1
      simp [channel] at empty
  | close at_ =>
    have before := course.graph begun
    simp only [graphOutcome?, at_] at before
    exact before

theorem begin_onCourse (m : Setup σ) (view : σ → τ) (jobs : List Job) (start : σ) :
    (m.begin jobs start).OnCourse m view jobs start where
  turns := begin_turns m jobs start
  heard := List.nil_prefix
  distinct _ := by simp [begin, namesOf, nodesOf]
  leads _ := by
    have same : (m.begin jobs start).outlook m = m.sweep jobs start := by
      unfold outlook sweep
      simp [begin, sent, Function.comp_def, Task.new]
    rw [Leads, same]
    exact ⟨rfl, rfl, fun _ => rfl⟩
  graph begun := by simp [begin] at begun

theorem onCourse_of_reachable (alone : m.workers = 1) (heedless : m.environment.Heedless view)
    (reach : m.Reachable jobs start s) : s.OnCourse m view jobs start := by
  induction reach with
  | start => exact begin_onCourse m view jobs start
  | step reach step course =>
    have valid := valid_of_reachable reach
    have orderly := orderly_of_reachable reach
    exact ⟨step_turns alone step course.turns, step_heard valid course step,
      step_distinct valid course step, step_leads heedless valid orderly course step,
      step_graph heedless valid orderly course step⟩

theorem firstRepeat?_of_counted {a : Aggregator} (valid : s.Valid m jobs)
    (counted : Counted m.destination m.settings s.tasks.length s.heard a) :
    firstRepeat? [] (namesOf s.heard) = none := by
  refine firstRepeat?_of_nodup ?_ (by simp)
  by_cases graph : m.settings.graph
  · exact counted.distinct graph
  · have none := (Task.nodesOf_tasks valid.tasks).2.2 graph
    have nodes := (valid.reports.filterMap Event.node?).symm
    change (nodesOf s.sent).Perm (nodesOf (s.tasks.flatMap Task.reports)) at nodes
    rw [none, sent, nodesOf_append] at nodes
    have heard := (List.append_eq_nil_iff.mp nodes.eq_nil).1
    rw [namesOf, heard]
    exact List.nodup_nil

theorem firstRepeat?_of_clash {e : RunError} (course : s.OnCourse m view jobs start)
    (clash : Clashes m.settings s.heard e) : ∃ name, e = .graph (.duplicateModule name) ∧
      firstRepeat? [] (namesOf (m.sweep jobs start).2.2) = some name := by
  obtain ⟨graph, name, same, twice⟩ := clash
  refine ⟨name, same, ?_⟩
  have distinct := course.distinct graph
  obtain ⟨more, whole⟩ := course.heard
  rw [← whole, namesOf, nodesOf_append, List.map_append]
  refine firstRepeat?_append ?_ _
  rcases List.eq_nil_or_concat s.heard with empty | ⟨early, event, heard⟩
  · simp [empty, namesOf, nodesOf] at twice
  · rw [heard] at distinct twice ⊢
    rw [List.concat_eq_append] at distinct twice ⊢
    rw [List.dropLast_concat] at distinct
    rw [namesOf, nodesOf_append, List.map_append] at twice
    rw [nodesOf_append, List.map_append]
    have once := List.nodup_iff_count.mp distinct name
    rw [List.count_append] at twice
    cases event with
    | finished output =>
      simp only [nodesOf, namesOf, List.filterMap_cons, Event.node?, List.filterMap_nil,
        List.map_nil, List.count_nil] at twice once
      omega
    | compiled node requires =>
      have here : node = name := by
        by_cases same : node = name
        · exact same
        · simp [nodesOf, namesOf, Event.node?, same] at twice once
          omega
      subst here
      refine firstRepeat?_concat distinct (by simp) (.inl (List.count_pos_iff.mp ?_))
      simp [nodesOf, Event.node?] at twice ⊢
      omega

theorem returns_sequentialOutcome (alone : m.workers = 1)
    (heedless : m.environment.Heedless view) (reach : m.Reachable jobs start s)
    {r : Except RunError Summary} (returned : s.result? = some r) :
    r = m.sequentialOutcome jobs start := by
  have valid := valid_of_reachable reach
  have orderly := orderly_of_reachable reach
  have course := onCourse_of_reachable alone heedless reach
  have length : s.tasks.length = jobs.length := by rw [← valid.jobs, List.length_map]
  obtain ⟨outcome, worker, listener, worked, settled⟩ := parts_of_result returned
  have told : s.graphOutcome? m = some (outcome.map Aggregator.written) := by
    simp only [graphOutcome?, listener]
  rw [settled]
  unfold sequentialOutcome
  cases outcome with
  | error e =>
    rcases valid.ended_error listener with ⟨clash, _⟩ | ⟨_, _, begun, released⟩
    · obtain ⟨name, same, found⟩ := firstRepeat?_of_clash course clash
      simp only [found, same]
      rfl
    · have succeeded := succeeded_of_released valid orderly released
      obtain ⟨worked, reports, _⟩ := course.leads (heard_of_succeeded valid succeeded)
      obtain ⟨a, counted, none⟩ := released
      rw [outlook_of_succeeded succeeded] at worked reports
      simp only [sent, (drained valid counted none).1, List.append_nil] at worked reports
      have graph := course.graph begun
      rw [told] at graph
      simp only [← worked, ← reports, firstRepeat?_of_counted valid counted] at graph ⊢
      rw [← Option.some.inj graph]
      rfl
  | ok a =>
    obtain ⟨⟨counted, waiting⟩, _, channel⟩ := valid.ended_ok listener
    have heard := all_heard valid fun e ended => by simp [listener] at ended
    obtain ⟨finish, reports, _⟩ := course.leads heard
    obtain ⟨_, comes⟩ := valid.left _ worked
    have unrepeated := firstRepeat?_of_counted valid counted
    cases worker with
    | error e =>
      obtain ⟨t, mem, failed⟩ := comes
      obtain ⟨before, after, tasks⟩ := List.append_of_mem mem
      have started : t.started = true := by
        rw [← Bool.not_eq_false]
        intro fresh
        have none := (valid.tasks t mem).fresh fresh
        simp [failed] at none
      have ends : s.outlook m = (.error e, s.surroundings, s.sent) := by
        rw [outlook_at tasks (earlier_succeeded tasks started course.turns),
          Task.rest_of_result failed]
        rfl
      rw [ends] at finish reports
      simp only [sent, channel, List.append_nil] at reports
      simp only [← finish, ← reports, unrepeated]
      rfl
    | ok _ =>
      rw [outlook_of_succeeded comes] at finish reports
      simp only [sent, channel, List.append_nil] at reports
      have released := released_of_succeeded valid channel comes counted
      rcases waiting with ⟨outstanding, _⟩ | ⟨_, begun, _⟩
      · exact absurd released outstanding
      · have graph := course.graph begun
        rw [told] at graph
        simp only [← finish, ← reports, unrepeated] at graph ⊢
        rw [← Option.some.inj graph]
        simp [settle, released, length, Except.map]

theorem runSequentially_outcome (heedless : m.environment.Heedless view) (jobs : List Job)
    (start : σ) : (runSequentially m.environment m.settings m.destination jobs start).1 =
      m.sequentialOutcome jobs start := by
  let lone : Setup σ := { m with workers := 1, staffed := Nat.one_pos }
  obtain ⟨s, reach, returned, _⟩ := sequential_reachable lone jobs start
  exact returns_sequentialOutcome (m := lone) rfl heedless reach returned

/-- A run with one worker comes to what its jobs come to in order, however far the listener
lags behind, and to nothing else. -/
theorem result_of_lone_worker (alone : m.workers = 1) (heedless : m.environment.Heedless view)
    (r : Except RunError Summary) : (∃ s, m.Reachable jobs start s ∧ s.result? = some r) ↔
      r = m.sequentialOutcome jobs start := by
  constructor
  · rintro ⟨s, reach, returned⟩
    exact returns_sequentialOutcome alone heedless reach returned
  · intro same
    obtain ⟨s, reach, returned, _⟩ := sequential_reachable m jobs start
    rw [runSequentially_outcome heedless, ← same] at returned
    exact ⟨s, reach, returned⟩

def inWorld (settings : Settings) (destination : String) : Setup World where
  environment := World.answer
  settings := settings
  destination := .ofString destination
  workers := 1
  staffed := Nat.one_pos

def barren : World where
  files := .empty
  compiler := ⟨fun _ => [], fun _ => .error (.rejected "no")⟩

/-- Four jobs with two names between them, all of them compiled in the end, and a job in a world
where its source is missing. -/
theorem result_of_lone_worker_with_names_twice :
    (∃ s, (obliging (.ok ⟨"code", ["x"]⟩) 0).Reachable
        [.named "a", .named "b", .named "b", .named "a"] () s ∧
      s.result? = some (.error (.graph (.duplicateModule "b")))) ∧
      ∃ s, (inWorld {} "out").Reachable [.named "a"] barren s ∧
        s.result? = some (.error (.stream ⟨.file (.ofString "a"), .openInput, .notFound⟩)) := by
  have heedless : (obliging (.ok ⟨"code", ["x"]⟩) 0).environment.Heedless id :=
    ⟨fun _ _ => rfl, fun _ _ _ _ => ⟨rfl, rfl⟩⟩
  refine ⟨(result_of_lone_worker rfl heedless _).mpr rfl, ?_⟩
  exact (result_of_lone_worker (m := inWorld {} "out") rfl World.answer_heedless _).mpr (by cbv)

end Setup

end ModuleTree
