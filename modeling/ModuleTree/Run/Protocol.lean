import ModuleTree.Run.Sequential
/- A run with any number of workers, one step at a time. Workers take jobs and report on
   them over a channel that holds so many reports and no more; one party listens. Each step
   is a step of one party, and any party that can take a step may be the next to take it.
   The workers are there from the beginning; a pool that cannot be had is no run at all. -/
namespace ModuleTree

def backlog : Nat := 128

/-- A job with all that has been exchanged about it, and what is left to do. -/
structure Task where
  job : Job
  started : Bool := false
  transcript : Transcript := []
  rest : Procedure (Except RunError Unit)

namespace Task

def new (settings : Settings) (job : Job) : Task := { job, rest := compileFile settings job }

def result? (t : Task) : Option (Except RunError Unit) :=
  match t.rest with
  | .done result => some result
  | .ask _ _ => none

def isBusy (t : Task) : Bool := t.started && t.result?.isNone

def answered (t : Task) (call : Call) (answer : call.Answer)
    (next : call.Answer → Procedure (Except RunError Unit)) : Task :=
  { t with transcript := t.transcript ++ [⟨call, answer⟩], rest := next answer }

end Task

/-- Where the party that hears the reports stands. It judges a report, writes the graph,
waits for the next report, or has ended and hears nothing more. -/
inductive Listener where
  | judging (rest : Procedure (Except RunError Duty))
  | flushing (aggregator : Aggregator) (rest : Procedure (Except RunError Aggregator))
  | listening (aggregator : Aggregator)
  | ended (outcome : Except RunError Aggregator)

/-- A state of a run. `worked` is what the workers have come to, once they have all left and
nobody can report any more. -/
structure Run (σ : Type) where
  surroundings : σ
  tasks : List Task
  channel : List Event := []
  heard : List Event := []
  listener : Listener
  minutes : Transcript := []
  flushes : Nat := 0
  worked : Option (Except RunError Unit) := none

namespace Run

variable {σ : Type}

def busy (s : Run σ) : Nat := s.tasks.countP Task.isBusy

def HasFailed (s : Run σ) : Prop := ∃ t ∈ s.tasks, ∃ e, t.result? = some (.error e)

def WorkComesTo (s : Run σ) : Except RunError Unit → Prop
  | .ok () => ∀ t ∈ s.tasks, t.result? = some (.ok ())
  | .error e => ∃ t ∈ s.tasks, t.result? = some (.error e)

def follow (s : Run σ) : Except RunError Duty → Run σ
  | .error e => { s with listener := .ended (.error e) }
  | .ok (.listen a) => { s with listener := .listening a }
  | .ok (.flush a) => { s with listener := .flushing a a.flush, flushes := s.flushes + 1 }

def afterFlush (s : Run σ) : Except RunError Aggregator → Run σ
  | .error e => { s with listener := .ended (.error e) }
  | .ok a => { s with listener := .listening a }

def result? (s : Run σ) : Option (Except RunError Summary) :=
  match s.listener, s.worked with
  | .ended outcome, some worker => some (settle s.tasks.length outcome worker)
  | _, _ => none

end Run

structure Setup (σ : Type) where
  environment : Environment σ
  settings : Settings
  destination : Path
  workers : Nat
  staffed : 0 < workers

namespace Setup

variable {σ : Type}

def begin (m : Setup σ) (jobs : List Job) (start : σ) : Run σ where
  surroundings := start
  tasks := jobs.map (Task.new m.settings)
  listener := .judging (Aggregator.new m.destination m.settings jobs.length).opening

/-- A lone worker takes the jobs in order, and none after a failure. Of several workers any
may take any job, even while another one fails. -/
def InTurn (m : Setup σ) (s : Run σ) (before : List Task) : Prop :=
  m.workers = 1 → (∀ t ∈ before, t.started) ∧ ¬s.HasFailed

inductive Step (m : Setup σ) (s : Run σ) : Run σ → Prop where
  | take {before after : List Task} {t : Task}
      (tasks : s.tasks = before ++ t :: after) (fresh : t.started = false)
      (open_ : s.worked = none) (free : s.busy < m.workers) (turn : m.InTurn s before) :
      Step m s { s with tasks := before ++ { t with started := true } :: after }
  | work {before after : List Task} {t : Task} {call : Call}
      {next : call.Answer → Procedure (Except RunError Unit)}
      (tasks : s.tasks = before ++ t :: after) (started : t.started)
      (rest : t.rest = .ask call next) (quiet : call.isReport = false) :
      Step m s { s with
        surroundings := (m.environment call s.surroundings).2
        tasks := before ++ t.answered call (m.environment call s.surroundings).1 next :: after }
  /-- A report finds room in the channel. -/
  | send {before after : List Task} {t : Task} {event : Event}
      {next : Bool → Procedure (Except RunError Unit)}
      (tasks : s.tasks = before ++ t :: after) (started : t.started)
      (rest : t.rest = .ask (.report event) next) (room : s.channel.length < backlog)
      (listened : ∀ outcome, s.listener ≠ .ended outcome) :
      Step m s { s with
        tasks := before ++ t.answered (.report event) true next :: after
        channel := s.channel ++ [event] }
  | refuse {before after : List Task} {t : Task} {event : Event}
      {next : Bool → Procedure (Except RunError Unit)} {outcome : Except RunError Aggregator}
      (tasks : s.tasks = before ++ t :: after) (started : t.started)
      (rest : t.rest = .ask (.report event) next) (gone : s.listener = .ended outcome) :
      Step m s { s with tasks := before ++ t.answered (.report event) false next :: after }
  /-- The workers leave when no job is in their hands and none is to be taken, or when one has
  failed. -/
  | leave {result : Except RunError Unit}
      (open_ : s.worked = none) (idle : s.busy = 0) (comes : s.WorkComesTo result) :
      Step m s { s with worked := some result }
  | judge {call : Call} {next : call.Answer → Procedure (Except RunError Duty)}
      (at_ : s.listener = .judging (.ask call next)) :
      Step m s { s with
        surroundings := (m.environment call s.surroundings).2
        listener := .judging (next (m.environment call s.surroundings).1)
        minutes := s.minutes ++ [⟨call, (m.environment call s.surroundings).1⟩] }
  | follow {verdict : Except RunError Duty} (at_ : s.listener = .judging (.done verdict)) :
      Step m s (s.follow verdict)
  | write {a : Aggregator} {call : Call}
      {next : call.Answer → Procedure (Except RunError Aggregator)}
      (at_ : s.listener = .flushing a (.ask call next)) :
      Step m s { s with
        surroundings := (m.environment call s.surroundings).2
        listener := .flushing a (next (m.environment call s.surroundings).1)
        minutes := s.minutes ++ [⟨call, (m.environment call s.surroundings).1⟩] }
  | flushed {a : Aggregator} {outcome : Except RunError Aggregator}
      (at_ : s.listener = .flushing a (.done outcome)) : Step m s (s.afterFlush outcome)
  | hear {a : Aggregator} {event : Event} {later : List Event}
      (at_ : s.listener = .listening a) (channel : s.channel = event :: later) :
      Step m s { s with
        channel := later
        heard := s.heard ++ [event]
        listener := .judging (a.hear event) }
  /-- The listener ends when nothing is left to hear and nobody can report any more. -/
  | close {a : Aggregator} {result : Except RunError Unit}
      (at_ : s.listener = .listening a) (channel : s.channel = [])
      (left_ : s.worked = some result) :
      Step m s { s with listener := .ended (.ok a) }

inductive Reachable (m : Setup σ) (jobs : List Job) (start : σ) : Run σ → Prop where
  | start : Reachable m jobs start (m.begin jobs start)
  | step {s s' : Run σ} (reach : Reachable m jobs start s) (step : m.Step s s') :
      Reachable m jobs start s'

/-- Ends of a run, given what was discovered. Without jobs to begin with there is no state
to end in. -/
inductive Returns (m : Setup σ) (start : σ) :
    Except WalkError (List Job) → Option (Run σ) → Except RunError Summary → Prop where
  | undiscovered (e : WalkError) : Returns m start (.error e) none (.error (.walk e))
  | settled {jobs : List Job} {s : Run σ} {r : Except RunError Summary}
      (reach : m.Reachable jobs start s) (returned : s.result? = some r) :
      Returns m start (.ok jobs) (some s) r

end Setup

end ModuleTree
