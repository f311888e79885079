import ModuleTree.Compiler.Command
/- A compiler that is a program of its own, while it runs. One thread writes it the source, another
   gathers what it prints until it has ended, and between them and the child are pipes, which hold
   so many bytes and no more. Any party that can take a step may be the next to take it. -/
namespace ModuleTree

inductive Outlet where
  | output
  | errors
  deriving DecidableEq, Repr

/-- What a child does. Of its input it reads what there is, so many bytes at most, or all until
the end. -/
inductive Action where
  | read (most : Nat)
  | readAll
  | closeInput
  | print (outlet : Outlet) (bytes : Bytes)
  deriving DecidableEq, Repr

namespace Action

def printed (outlet : Outlet) : List Action → Bytes
  | .print own bytes :: later => (if own = outlet then bytes else []) ++ printed outlet later
  | _ :: later => printed outlet later
  | [] => []

def readsToEnd : List Action → Bool
  | .readAll :: _ => true
  | .closeInput :: _ => false
  | _ :: later => readsToEnd later
  | [] => false

end Action

structure Child where
  actions : List Action
  ending : Shell.Ending

def Child.outcome (child : Child) : Shell.Outcome where
  output := Action.printed .output child.actions
  errors := Action.printed .errors child.actions
  ending := child.ending

/-- How the thread ended that writes the source: nothing was left to write, or nobody to read. -/
inductive Sent where
  | whole
  | broken
  deriving DecidableEq, Repr

/-- What is made of a child that has ended. That it left some of its input unread is no failure. -/
def Command.conclude (c : Command) (r : Request) (outcome : Shell.Outcome) (sent : Sent) :
    Except CompileError Compiled :=
  if outcome.ending ≠ .exit 0 then .error (.exit (c.line r) outcome.errors)
  else
    match sent with
    | .whole => c.answer r outcome
    | .broken => c.answer r outcome

inductive Awaiting where
  | gathering
  | reaping
  | joining (outcome : Shell.Outcome)
  | returned (result : Except CompileError Compiled)

structure Talk where
  command : Command
  request : Request
  child : Child
  inputRoom : Nat
  room : Outlet → Nat
  inputRoom_pos : 0 < inputRoom
  room_pos : ∀ outlet, 0 < room outlet

namespace Talk

def source (x : Talk) : Bytes := x.request.source.toUTF8.toList

/-- What is left in the input of a child that has closed it stays there, and nobody reads it. -/
structure State where
  unsent : Bytes
  sent : Option Sent := none
  input : Bytes := []
  inputOpen : Bool := true
  received : Bytes := []
  sawEnd : Bool := false
  actions : List Action
  exited : Bool := false
  pipe : Outlet → Bytes := fun _ => []
  gathered : Outlet → Bytes := fun _ => []
  awaiting : Awaiting := .gathering

namespace State

def listens (s : State) : Bool := s.inputOpen && !s.exited

def passes (s : State) : Action → Bool
  | .read most => most = 0 || !s.inputOpen
  | .readAll => !s.inputOpen
  | .closeInput => false
  | .print _ bytes => bytes.isEmpty

def printing (s : State) (outlet : Outlet) (bytes : Bytes) : State :=
  { s with pipe := fun o => if o = outlet then s.pipe o ++ bytes else s.pipe o }

def gathering (s : State) (outlet : Outlet) (bytes left : Bytes) : State :=
  { s with
    pipe := fun o => if o = outlet then left else s.pipe o
    gathered := fun o => if o = outlet then s.gathered o ++ bytes else s.gathered o }

def result? (s : State) : Option (Except CompileError Compiled) :=
  match s.awaiting with
  | .returned result => some result
  | _ => none

end State

def start (x : Talk) : State where
  unsent := x.source
  actions := x.child.actions

inductive Step (x : Talk) (s : State) : State → Prop where
  | send {chunk rest : Bytes} (writing : s.sent = none) (unsent : s.unsent = chunk ++ rest)
      (some_ : chunk ≠ []) (listens : s.listens)
      (room : s.input.length + chunk.length ≤ x.inputRoom) :
      Step x s { s with unsent := rest, input := s.input ++ chunk }
  | refuse (writing : s.sent = none) (unsent : s.unsent ≠ []) (gone : s.listens = false) :
      Step x s { s with sent := some .broken }
  | finish (writing : s.sent = none) (unsent : s.unsent = []) :
      Step x s { s with sent := some .whole }
  | receive {most : Nat} {taken rest : Bytes} {later : List Action}
      (actions : s.actions = .read most :: later) (open_ : s.inputOpen)
      (input : s.input = taken ++ rest) (some_ : taken ≠ []) (few : taken.length ≤ most) :
      Step x s { s with input := rest, received := s.received ++ taken, actions := later }
  | receiveOn {taken rest : Bytes} {later : List Action}
      (actions : s.actions = .readAll :: later) (open_ : s.inputOpen)
      (input : s.input = taken ++ rest) (some_ : taken ≠ []) :
      Step x s { s with input := rest, received := s.received ++ taken }
  /-- The input has ended when nothing is in the pipe and the thread that writes it is gone. -/
  | seeEnd {action : Action} {later : List Action} (actions : s.actions = action :: later)
      (reads : action = .readAll ∨ ∃ most, action = .read (most + 1)) (open_ : s.inputOpen)
      (input : s.input = []) (ended : s.sent.isSome) :
      Step x s { s with sawEnd := true, actions := later }
  | pass {action : Action} {later : List Action} (actions : s.actions = action :: later)
      (passes : s.passes action) : Step x s { s with actions := later }
  | closeInput {later : List Action} (actions : s.actions = .closeInput :: later) :
      Step x s { s with inputOpen := false, actions := later }
  | print {outlet : Outlet} {chunk rest : Bytes} {later : List Action}
      (actions : s.actions = .print outlet (chunk ++ rest) :: later) (some_ : chunk ≠ [])
      (room : (s.pipe outlet).length + chunk.length ≤ x.room outlet) :
      Step x s { s.printing outlet chunk with actions := .print outlet rest :: later }
  | exit (actions : s.actions = []) (running : s.exited = false) :
      Step x s { s with exited := true }
  | gather {outlet : Outlet} {chunk rest : Bytes} (at_ : s.awaiting = .gathering)
      (pipe : s.pipe outlet = chunk ++ rest) (some_ : chunk ≠ []) :
      Step x s (s.gathering outlet chunk rest)
  /-- Both pipes have ended when nothing is in them and the child is gone. -/
  | ended (at_ : s.awaiting = .gathering) (exited : s.exited) (empty : ∀ outlet, s.pipe outlet = []) :
      Step x s { s with awaiting := .reaping }
  | reap (at_ : s.awaiting = .reaping) (exited : s.exited) :
      Step x s { s with
        awaiting := .joining ⟨s.gathered .output, s.gathered .errors, x.child.ending, []⟩ }
  | join {outcome : Shell.Outcome} {sent : Sent} (at_ : s.awaiting = .joining outcome)
      (ended : s.sent = some sent) :
      Step x s { s with
        awaiting := .returned (x.command.conclude x.request outcome sent) }

inductive Reachable (x : Talk) : State → Prop where
  | start : Reachable x x.start
  | step {s s' : State} (reach : Reachable x s) (step : x.Step s s') : Reachable x s'

end Talk

end ModuleTree
