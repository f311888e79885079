import ModuleTree.FileSystem.Basic
import ModuleTree.Compiled
import ModuleTree.Error
import ModuleTree.Notice
import ModuleTree.Usage
/- Work as a tree of calls: what it asks of its surroundings, and how it goes on with each
   answer. Whoever runs the work answers the calls, one at a time. -/
namespace ModuleTree

structure Request where
  source : String
  moduleName : Option String
  settings : Settings

inductive Event where
  | compiled (node : String) (requires : List String)
  | finished (output : Path)
  deriving DecidableEq, Repr

inductive Call where
  | pathExists (p : Path)
  | isDirectory (p : Path)
  | makeDirectory (p : Path)
  | openFile (p : Path)
  | createFile (p : Path)
  | readFile (file : NodeId)
  | writeFile (file : NodeId) (bytes : ByteArray)
  | compile (request : Request)
  | report (event : Event)
  | note (notice : Notice)

/-- A report is answered by whether anybody still listens. -/
abbrev Call.Answer : Call → Type
  | .pathExists _ => Bool
  | .isDirectory _ => Bool
  | .makeDirectory _ => Except IoError Unit
  | .openFile _ => Except IoError NodeId
  | .createFile _ => Except IoError NodeId
  | .readFile _ => Except IoError ByteArray
  | .writeFile _ _ => Except IoError Unit
  | .compile _ => Except CompileError Compiled
  | .report _ => Bool
  | .note _ => Unit

def Call.isReport : Call → Bool
  | .report _ => true
  | _ => false

structure Exchange where
  call : Call
  answer : call.Answer

abbrev Transcript := List Exchange

namespace Exchange

def module? : Exchange → Option Compiled
  | ⟨.compile _, .ok compiled⟩ => some compiled
  | _ => none

def written? : Exchange → Option (NodeId × ByteArray)
  | ⟨.writeFile file bytes, .ok ()⟩ => some (file, bytes)
  | _ => none

def heard? : Exchange → Option Event
  | ⟨.report event, true⟩ => some event
  | _ => none

def isUnheard : Exchange → Bool
  | ⟨.report _, false⟩ => true
  | _ => false

end Exchange

inductive Procedure (α : Type) where
  | done (result : α)
  | ask (call : Call) (next : call.Answer → Procedure α)

namespace Procedure

variable {α β σ : Type}

def bind (p : Procedure α) (f : α → Procedure β) : Procedure β :=
  match p with
  | .done a => f a
  | .ask call next => .ask call fun answer => (next answer).bind f

instance : Monad Procedure where
  pure := .done
  bind := bind

def call (c : Call) : Procedure c.Answer := .ask c .done

def run (answer : (c : Call) → σ → c.Answer × σ) : Procedure α → σ → α × σ
  | .done a, state => (a, state)
  | .ask c next, state => run answer (next (answer c state).1) (answer c state).2

end Procedure

end ModuleTree
