/- Counting outstanding work. The count only falls, and one decrement finishes it. -/
namespace ModuleTree

structure Barrier where
  remaining : Nat
  deriving DecidableEq, Repr

namespace Barrier

inductive Release where
  | pending (remaining : Nat)
  | released
  deriving DecidableEq, Repr

inductive Fault where
  | overrun
  deriving DecidableEq, Repr

def Fault.message : Fault → String
  | .overrun => "more completions were reported than work was expected"

def isReleased (b : Barrier) : Bool := b.remaining = 0

def Release.of (remaining : Nat) : Release :=
  if remaining = 0 then .released else .pending remaining

def decrement (b : Barrier) : Except Fault Release × Barrier :=
  match b.remaining with
  | 0 => (.error .overrun, b)
  | n + 1 => (.ok (.of n), ⟨n⟩)

end Barrier

end ModuleTree
