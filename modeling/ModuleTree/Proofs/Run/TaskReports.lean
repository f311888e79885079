import ModuleTree.Proofs.Run.ListenerCourse
import ModuleTree.Run.Protocol
/- What the tasks of a run report. Each task is somewhere on its course; it reports its node
   once where a graph is wanted, and after it that it has finished. -/
namespace ModuleTree

namespace Task
open Procedure

def reports (t : Task) : List Event := t.transcript.filterMap Exchange.heard?

def modules (t : Task) : List Compiled := t.transcript.filterMap Exchange.module?

def nodes (t : Task) : List (String × List String) :=
  t.modules.map fun module => (t.job.nodeName, module.dependencies)

def AtStage (settings : Settings) (t : Task) (stage : Stage) : Prop :=
  stage.Fits settings t.job t.transcript

structure Sound (settings : Settings) (t : Task) : Prop where
  lawful : Lawful settings t.job t.transcript
  keeps : Keeps (Lawful settings t.job) (JobEnds settings t.job) t.transcript t.rest
  asked : ∀ x ∈ t.transcript, t.job.May x.call
  asks : t.rest.Asks t.job.May
  fresh : t.started = false → t.result? = none

inductive Advances (t : Task) : Task → Prop where
  | starts : Advances t { t with started := true }
  | answered {call : Call} {next : call.Answer → Procedure (Except RunError Unit)}
      (started : t.started) (rest : t.rest = .ask call next) (answer : call.Answer) :
      Advances t (t.answered call answer next)

variable {settings : Settings} {t t' : Task}

theorem asked_of_module {module : Compiled} (mem : module ∈ t.modules) :
    ∃ request, ⟨.compile request, .ok module⟩ ∈ t.transcript := by
  obtain ⟨⟨call, answer⟩, there, brings⟩ := List.mem_filterMap.mp mem
  cases call with
  | compile request =>
    cases answer with
    | error e => cases brings
    | ok other =>
      cases brings
      exact ⟨request, there⟩
  | _ => cases brings

theorem new_sound (settings : Settings) (job : Job) : (new settings job).Sound settings where
  lawful := ⟨.begun, Stage.begun_fits_nil settings job⟩
  keeps := compileFile_keeps settings job
  asked _ mem := absurd mem List.not_mem_nil
  asks := compileFile_asks settings job
  fresh _ := rfl

theorem job_advances (h : t.Advances t') : t'.job = t.job := by
  cases h <;> rfl

theorem sound_advances (sound : t.Sound settings) (h : t.Advances t') : t'.Sound settings := by
  cases h with
  | starts => exact ⟨sound.lawful, sound.keeps, sound.asked, sound.asks, by simp⟩
  | answered started rest answer =>
    have keeps := sound.keeps
    have asks := sound.asks
    rw [rest] at keeps asks
    refine ⟨(keeps answer).1, (keeps answer).2, forall_concat sound.asked asks.1, asks.2 answer,
      fun fresh => ?_⟩
    change t.started = false at fresh
    simp [fresh] at started

theorem sound_ends {result : Except RunError Unit} (sound : t.Sound settings)
    (h : t.result? = some result) : JobEnds settings t.job t.transcript result := by
  have keeps := sound.keeps
  unfold result? at h
  split at h
  · rename_i same done
    rw [done] at keeps
    rwa [← Option.some.inj h]
  · contradiction

theorem reports_answered (t : Task) (call : Call) (answer : call.Answer)
    (next : call.Answer → Procedure (Except RunError Unit)) :
    (t.answered call answer next).reports =
      t.reports ++ (Exchange.heard? ⟨call, answer⟩).toList := by
  simp only [reports, answered, List.filterMap_append]
  cases here : Exchange.heard? ⟨call, answer⟩ <;> simp [here]

theorem quiet_of_no_report {call : Call} (quiet : call.isReport = false) (answer : call.Answer) :
    Exchange.heard? ⟨call, answer⟩ = none ∧ Exchange.isUnheard ⟨call, answer⟩ = false := by
  cases call <;> first | exact ⟨rfl, rfl⟩ | simp [Call.isReport] at quiet

theorem finished_reports {stage : Stage} (h : t.AtStage settings stage) :
    finishedIn t.reports = if stage.isFinished then 1 else 0 := by
  have none_of (module : Compiled) : finishedIn (nodeReports settings t.job module) = 0 := by
    unfold nodeReports
    split <;> rfl
  rw [reports, h.reports]
  cases stage with
  | finished module =>
    rw [Stage.reports, finishedIn_append, none_of]
    rfl
  | begun | compiled => rfl
  | recorded module | written module => exact none_of module

theorem node_reports (h : t.Sound settings) :
    (nodesOf t.reports).length ≤ 1 ∧
      (settings.graph → finishedIn t.reports ≤ (nodesOf t.reports).length) ∧
      (¬settings.graph → nodesOf t.reports = []) := by
  obtain ⟨stage, fits⟩ := h.lawful
  rw [finished_reports fits]
  have same : t.reports = stage.reports settings t.job := fits.reports
  rw [same]
  by_cases graph : settings.graph
  · cases stage <;>
      simp [Stage.reports, nodeReports, graph, nodesOf, Event.node?, Stage.isFinished]
  · cases stage <;>
      simp [Stage.reports, nodeReports, graph, nodesOf, Event.node?, List.filterMap_cons]

theorem nodes_of_finished {module : Compiled} (graph : settings.graph)
    (h : t.AtStage settings (.finished module)) : nodesOf t.reports = t.nodes := by
  have reported : t.reports = _ := h.reports
  have compiled : t.modules = _ := h.modules
  simp [nodes, reported, compiled, Stage.reports, Stage.modules, nodeReports, graph, nodesOf,
    Event.node?]

theorem names_sublist (h : t.Sound settings) : (namesOf t.reports).Sublist [t.job.nodeName] := by
  obtain ⟨stage, fits⟩ := h.lawful
  have same : t.reports = stage.reports settings t.job := fits.reports
  rw [same]
  by_cases graph : settings.graph <;> cases stage <;>
    simp [Stage.reports, nodeReports, graph, namesOf, nodesOf, Event.node?, List.filterMap_cons]

theorem names_of_tasks_sublist {tasks : List Task} (sound : ∀ t ∈ tasks, t.Sound settings) :
    (namesOf (tasks.flatMap reports)).Sublist (tasks.map fun t => t.job.nodeName) := by
  induction tasks with
  | nil => exact .slnil
  | cons t rest ih =>
    have others := ih fun u mem => sound u (List.mem_cons_of_mem _ mem)
    have here := names_sublist (sound t List.mem_cons_self)
    simp only [List.flatMap_cons, namesOf, nodesOf_append, List.map_append, List.map_cons]
    exact here.append others

theorem finishedIn_tasks {tasks : List Task} (sound : ∀ t ∈ tasks, t.Sound settings) :
    finishedIn (tasks.flatMap reports) ≤ tasks.length ∧
      (finishedIn (tasks.flatMap reports) = tasks.length →
        ∀ t ∈ tasks, ∃ module, t.AtStage settings (.finished module)) := by
  induction tasks with
  | nil => exact ⟨Nat.le_refl _, by simp⟩
  | cons t rest ih =>
    obtain ⟨bound, all⟩ := ih fun t mem => sound t (List.mem_cons_of_mem _ mem)
    obtain ⟨stage, fits⟩ := (sound t List.mem_cons_self).lawful
    have here := finished_reports fits
    simp only [List.flatMap_cons, finishedIn_append, List.length_cons]
    cases done : stage.isFinished with
    | false =>
      simp only [done, Bool.false_eq_true, if_false] at here
      exact ⟨by omega, fun same => by omega⟩
    | true =>
      simp only [done, if_true] at here
      refine ⟨by omega, fun same => ?_⟩
      intro u mem
      rcases List.mem_cons.mp mem with first | later
      · cases stage with
        | finished module => exact ⟨module, first ▸ fits⟩
        | begun | compiled | recorded | written => contradiction
      · exact all (by omega) u later

theorem finishedIn_of_all {tasks : List Task}
    (all : ∀ t ∈ tasks, ∃ module, t.AtStage settings (.finished module)) :
    finishedIn (tasks.flatMap reports) = tasks.length := by
  induction tasks with
  | nil => rfl
  | cons t rest ih =>
    obtain ⟨module, here⟩ := all t List.mem_cons_self
    have one : finishedIn t.reports = 1 := finished_reports here
    have others := ih fun u mem => all u (List.mem_cons_of_mem _ mem)
    rw [List.flatMap_cons, finishedIn_append, one, others, List.length_cons, Nat.add_comm]

theorem unfinished_of_error {e : RunError} (sound : t.Sound settings)
    (failed : t.result? = some (.error e)) (module : Compiled) :
    ¬t.AtStage settings (.finished module) := by
  intro finished
  obtain ⟨⟨stage, fits, early⟩, _⟩ := sound_ends sound failed
  have one := finished_reports finished
  have zero := finished_reports fits
  rw [early] at zero
  rw [zero] at one
  contradiction

theorem nodesOf_tasks {tasks : List Task} (sound : ∀ t ∈ tasks, t.Sound settings) :
    (nodesOf (tasks.flatMap reports)).length ≤ tasks.length ∧
      (settings.graph →
        finishedIn (tasks.flatMap reports) ≤ (nodesOf (tasks.flatMap reports)).length) ∧
      (¬settings.graph → nodesOf (tasks.flatMap reports) = []) := by
  induction tasks with
  | nil => exact ⟨Nat.le_refl _, fun _ => Nat.le_refl _, fun _ => rfl⟩
  | cons t rest ih =>
    obtain ⟨bound, ballot, none⟩ := ih fun t mem => sound t (List.mem_cons_of_mem _ mem)
    obtain ⟨bound', ballot', none'⟩ := node_reports (sound t List.mem_cons_self)
    simp only [List.flatMap_cons, finishedIn_append, nodesOf_append, List.length_append,
      List.length_cons]
    refine ⟨by omega, fun graph => ?_, fun graph => by rw [none graph, none' graph]; rfl⟩
    have := ballot graph
    have := ballot' graph
    omega

end Task

theorem eq_nil_of_counts {events : List Event} (nodes : nodesOf events = [])
    (finished : finishedIn events = 0) : events = [] := by
  cases events with
  | nil => rfl
  | cons event rest =>
    cases event with
    | compiled node requires => simp [nodesOf, Event.node?] at nodes
    | finished output => simp [finishedIn, Event.isFinished] at finished

end ModuleTree
