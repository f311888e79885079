import ModuleTree.Barrier
/- A barrier in the hands of several threads. A decrement is not one step there: it reads the
   count, works out the one below, and puts that in place of the first if the count is still what
   it was. Any thread may take its next step between two steps of another. -/
namespace ModuleTree.Barrier

/-- The count is a machine word, and there is none below zero. -/
def lower? (count : UInt64) : Option UInt64 := if count = 0 then none else some (count - 1)

/-- A thread: the calls that it has not begun, and what the call it is in has read last. -/
structure Thread where
  waiting : Nat
  seen : Option UInt64 := none
  deriving DecidableEq, Repr

def Thread.left (t : Thread) : Nat := t.waiting + t.seen.toList.length

def total : List Nat → Nat
  | [] => 0
  | calls :: others => calls + total others

/-- A call that is over: the count before and after its last step, and what it gave. -/
structure Ended where
  before : UInt64
  after : UInt64
  answer : Except Fault Release

/-- Calls that are over are in the order in which they ended. -/
structure Shared where
  count : UInt64
  threads : List Thread
  ended : List Ended := []

namespace Shared

def begin (count : UInt64) (calls : List Nat) : Shared where
  count := count
  threads := calls.map fun calls => { waiting := calls }

def left (s : Shared) : Nat := total (s.threads.map Thread.left)

inductive Step (s : Shared) : Shared → Prop where
  | load {before after : List Thread} {waiting : Nat}
      (threads : s.threads = before ++ ⟨waiting + 1, none⟩ :: after) :
      Step s { s with threads := before ++ ⟨waiting, some s.count⟩ :: after }
  | refuse {before after : List Thread} {waiting : Nat} {seen : UInt64}
      (threads : s.threads = before ++ ⟨waiting, some seen⟩ :: after)
      (bottom : lower? seen = none) :
      Step s { s with
        threads := before ++ ⟨waiting, none⟩ :: after
        ended := s.ended ++ [⟨s.count, s.count, .error .overrun⟩] }
  | exchange {before after : List Thread} {waiting : Nat} {seen below : UInt64}
      (threads : s.threads = before ++ ⟨waiting, some seen⟩ :: after)
      (lower : lower? seen = some below) (same : s.count = seen) :
      Step s { s with
        count := below
        threads := before ++ ⟨waiting, none⟩ :: after
        ended := s.ended ++ [⟨s.count, below, .ok (.of (seen - 1).toNat)⟩] }
  /-- An exchange that fails gives the count anew. It may fail even where the count is the one
  that was seen. -/
  | retry {before after : List Thread} {waiting : Nat} {seen below : UInt64}
      (threads : s.threads = before ++ ⟨waiting, some seen⟩ :: after)
      (lower : lower? seen = some below) :
      Step s { s with threads := before ++ ⟨waiting, some s.count⟩ :: after }

inductive Reaches (s : Shared) : Shared → Prop where
  | refl : Reaches s s
  | step {t u : Shared} (reach : Reaches s t) (step : Step t u) : Reaches s u

end Shared

end ModuleTree.Barrier
