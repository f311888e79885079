import ModuleTree.Run.Job
import ModuleTree.Run.Aggregator
import ModuleTree.Run.World
/- A run, one job after another, each report heard as soon as it is made. -/
namespace ModuleTree

structure Summary where
  files : Nat
  graph : Option Path
  deriving DecidableEq, Repr

abbrev Environment (σ : Type) := (call : Call) → σ → call.Answer × σ

/-- The surroundings of a run together with the party that hears the reports, which is
silent for good after an error of its own. -/
structure Running (σ : Type) where
  surroundings : σ
  aggregator : Except RunError Aggregator

namespace Running

variable {σ : Type} (answer : Environment σ)

def hear (event : Event) (r : Running σ) : Bool × Running σ :=
  match r.aggregator with
  | .error _ => (false, r)
  | .ok a =>
    let (aggregator, surroundings) := (a.take event).run answer r.surroundings
    (true, { surroundings, aggregator })

def respond : Environment (Running σ)
  | .report event, r => r.hear answer event
  | call, r =>
    let (reply, surroundings) := answer call r.surroundings
    (reply, { r with surroundings })

def work (settings : Settings) : List Job → Running σ → Except RunError Unit × Running σ
  | [], r => (.ok (), r)
  | job :: rest, r =>
    match (compileFile settings job).run (respond answer) r with
    | (.error e, r) => (.error e, r)
    | (.ok (), r) => work settings rest r

end Running

/-- The outcome of a run from that of its two parties. Whatever the aggregator has to say
explains why nobody heard a worker. -/
def settle (expected : Nat) (aggregator : Except RunError Aggregator)
    (worker : Except RunError Unit) : Except RunError Summary :=
  match aggregator, worker with
  | .error e, _ => .error e
  | .ok _, .error e => .error e
  | .ok a, .ok () =>
    if a.barrier.remaining ≠ 0 then .error (.incomplete a.barrier.remaining expected)
    else .ok ⟨expected, a.written⟩

def runSequentially {σ : Type} (answer : Environment σ) (settings : Settings)
    (destination : Path) (jobs : List Job) (start : σ) : Except RunError Summary × σ :=
  let (aggregator, surroundings) :=
    (Aggregator.new destination settings jobs.length).start.run answer start
  let (worker, r) := Running.work answer settings jobs ⟨surroundings, aggregator⟩
  (settle jobs.length r.aggregator worker, r.surroundings)

def runJobs (settings : Settings) (destination : Path) (jobs : List Job) (w : World) :
    Except RunError Summary × World :=
  runSequentially World.answer settings destination jobs
    (w.note ⟨.info, .run, s!"compiling {jobs.length} files into {destination.quoted}"⟩)

def runTree (settings : Settings) (destination : Path) (roots : List Path) (w : World) :
    Except RunError Summary × World :=
  match Discovery.narrated w.files roots destination settings with
  | (.error e, log) => (.error (.walk e), { w with log := log ++ w.log })
  | (.ok jobs, log) => runJobs settings destination jobs { w with log := log ++ w.log }

end ModuleTree
