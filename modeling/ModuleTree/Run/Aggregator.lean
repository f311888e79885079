import ModuleTree.Graph.Accumulator
/- The one party of a run that hears all reports. It alone counts the finished jobs and
   keeps the graph, and it writes the graph when the last job has finished. -/
namespace ModuleTree

structure Aggregator where
  destination : Path
  barrier : Barrier
  accumulator : Accumulator
  written : Option Path := none

/-- What is left to do after a report: to listen on, or to write the graph first. -/
inductive Duty where
  | listen (aggregator : Aggregator)
  | flush (aggregator : Aggregator)

namespace Aggregator

def new (destination : Path) (settings : Settings) (expected : Nat) : Aggregator :=
  ⟨destination, ⟨expected⟩, .new settings.graph, none⟩

def judge (a : Aggregator) : Event → Except RunError Duty
  | .compiled node requires =>
    match a.accumulator.append node requires with
    | .error e => .error (.graph e)
    | .ok accumulator => .ok (.listen { a with accumulator })
  | .finished _ =>
    match a.barrier.decrement with
    | (.error fault, _) => .error (.barrier fault)
    | (.ok (.pending _), barrier) => .ok (.listen { a with barrier })
    | (.ok .released, barrier) => .ok (.flush { a with barrier })

def remark? (a : Aggregator) : Event → Option Notice
  | .compiled node requires => a.accumulator.remark? node requires
  | .finished output =>
    match a.barrier.decrement.1 with
    | .error _ => none
    | .ok (.pending remaining) =>
      some ⟨.trace, .run, s!"wrote {output.quoted}, {remaining} files remaining"⟩
    | .ok .released => some ⟨.debug, .run, s!"wrote {output.quoted}, last file of the run"⟩

def saying (remark : Option Notice) (verdict : Except RunError Duty) :
    Procedure (Except RunError Duty) :=
  match remark with
  | none => .done verdict
  | some notice => do
    .call (.note notice)
    return verdict

def hear (a : Aggregator) (event : Event) : Procedure (Except RunError Duty) :=
  saying (a.remark? event) (a.judge event)

def opening (a : Aggregator) : Procedure (Except RunError Duty) :=
  if a.barrier.isReleased then
    saying (some ⟨.debug, .run, "nothing to compile"⟩) (.ok (.flush a))
  else saying none (.ok (.listen a))

def flush (a : Aggregator) : Procedure (Except RunError Aggregator) := do
  match ← a.accumulator.flush a.destination with
  | .error e => return .error (.graph e)
  | .ok written => return .ok { a with written }

def obey : Except RunError Duty → Procedure (Except RunError Aggregator)
  | .error e => .done (.error e)
  | .ok (.listen a) => .done (.ok a)
  | .ok (.flush a) => a.flush

def start (a : Aggregator) : Procedure (Except RunError Aggregator) := do
  obey (← a.opening)

def take (a : Aggregator) (event : Event) : Procedure (Except RunError Aggregator) := do
  obey (← a.hear event)

end Aggregator

end ModuleTree
