import ModuleTree.Shell.Pattern
import ModuleTree.Shell.Script
import ModuleTree.Shell.Utility
/- What a shell knows while it runs a script. -/
namespace ModuleTree.Shell

/-- Where output goes: to one of the outputs that are being collected, to the errors, or
nowhere. -/
inductive Drain where
  | collected (depth : Nat)
  | errors
  | nothing
  | closed
  deriving DecidableEq, Repr

/-- What keeps the rest of a script from running: the shell has come to its end, or it
leaves some of the loops around it, or a function. -/
inductive Halt where
  | shell (ending : Ending)
  | loops (count : Nat) (again : Bool)
  | function
  deriving DecidableEq, Repr

structure State where
  name : Bytes
  arguments : List Bytes
  bindings : List (String × Bytes) := []
  functions : List (String × Script) := []
  loops : Nat := 0
  /-- Whether a command that fails ends the shell, unless its failure is asked for. -/
  strict : Bool := false
  tested : Bool := false
  /-- Whether a parameter without a value ends the shell. -/
  demanding : Bool := false
  job : Option Nat := none
  status : Nat := 0
  /-- Status of the last command whose output was taken, within the current command. -/
  taken : Option Nat := none
  input : Option Bytes
  /-- Outputs that are being collected, each with its latest piece in front. -/
  outputs : Array (List Bytes) := #[[]]
  errors : List Bytes := []
  outputTo : Drain := .collected 0
  errorsTo : Drain := .errors
  halt : Option Halt := none

namespace State

def put (s : State) (drain : Drain) (bytes : Bytes) : State :=
  match drain with
  | .collected depth => { s with outputs := s.outputs.modify depth (bytes :: ·) }
  | .errors => { s with errors := bytes :: s.errors }
  | .nothing => s
  | .closed => s

def complain (s : State) (message : String) : State :=
  s.put s.errorsTo (s.name ++ Text.encode (": 1: " ++ message ++ "\n"))

def setStatus (s : State) (status : Nat) : State := { s with status }

def finish (s : State) (ending : Ending) : State := { s with halt := some (.shell ending) }

def say (s : State) (command : String) (bytes : Bytes) : State :=
  if s.outputTo = .closed && !bytes.isEmpty then
    (s.complain s!"{command}: {command}: I/O error").setStatus 1
  else s.put s.outputTo bytes

/-- The state after a command whose failure nobody has asked for. -/
def checked (s : State) : State :=
  if s.strict && !s.tested && s.status ≠ 0 && s.halt.isNone then s.finish (.exit s.status) else s

def testing (s : State) (step : State → State) : State :=
  { step { s with tested := true } with tested := s.tested }

def afterBody (s : State) : Bool × State :=
  match s.halt with
  | none => (true, s)
  | some (.loops count again) =>
    if count ≤ 1 then (again, { s with halt := none })
    else (false, { s with halt := some (.loops (count - 1) again) })
  | some _ => (false, s)

def set (s : State) (name : String) (value : Bytes) : State :=
  { s with bindings := (name, value) :: s.bindings.filter (·.1 ≠ name) }

def positional (s : State) (n : Nat) : Option Bytes :=
  if n = 0 then some s.name else s.arguments[n - 1]?

def processNumber : Nat := 4242

def digits (n : Nat) : Bytes := Text.encode (toString n)

def value? (s : State) (name : String) : Option Bytes :=
  match name with
  | "#" => some (digits s.arguments.length)
  | "?" => some (digits s.status)
  | "$" => some (digits processNumber)
  | "!" => s.job.map fun _ => digits (processNumber + 1)
  | "-" => some ((if s.strict then [0x65] else []) ++ if s.demanding then [0x75] else [])
  | name =>
    match name.toNat? with
    | some n => s.positional n
    | none => s.bindings.lookup name

end State

def redirect (files : Files) (s : State) (r : Redirect) : Except String State :=
  let drain : Except String Drain :=
    match r.target with
    | .same 1 => .ok s.outputTo
    | .same 2 => .ok s.errorsTo
    | .same n => if n = 0 then .ok .closed else .error s!"{n}: Bad file descriptor"
    | .closed => .ok .closed
    | .path bytes =>
      if bytes = Text.encode "/dev/null" then .ok .nothing
      else .error s!"cannot create {Text.lossy bytes}: Permission denied"
  match r.descriptor with
  | 0 =>
    match r.target with
    | .closed => .ok { s with input := none }
    | .same _ => .ok s
    | .path bytes =>
      match files bytes with
      | .ok content => .ok { s with input := some content }
      | .error _ => .error s!"cannot open {Text.lossy bytes}: No such file"
  | 1 => drain.map fun d => { s with outputTo := d }
  | 2 => drain.map fun d => { s with errorsTo := d }
  | _ => .ok s

def redirectAll (files : Files) (s : State) : List Redirect → Except String State
  | [] => .ok s
  | r :: rest =>
    match redirect files s r with
    | .ok s => redirectAll files s rest
    | .error e => .error e

inductive Fragment where
  | whole (bytes : Bytes) (quoted : Bool)
  | loose (bytes : Bytes)
  | list (items : List Bytes) (quoted : Bool)

def isSeparator (b : UInt8) : Bool := b = 0x20 || b = 0x09 || b = 0x0A

/-- Fields under construction: the finished ones, latest first, and the open one, its last
byte first. -/
structure Fields where
  finished : List Bytes := []
  current : Option Bytes := none

namespace Fields

def close (f : Fields) : Fields :=
  match f.current with
  | none => f
  | some bytes => ⟨bytes.reverse :: f.finished, none⟩

def extend (f : Fields) (bytes : Bytes) : Fields :=
  { f with current := some (bytes.reverse ++ f.current.getD []) }

def spread : Fields → Bytes → Fields
  | f, [] => f
  | f, b :: rest =>
    if isSeparator b then spread f.close rest
    else spread { f with current := some (b :: f.current.getD []) } rest

def addList (quoted : Bool) : Fields → List Bytes → Fields
  | f, [] => f
  | f, [x] => if quoted then f.extend x else f.spread x
  | f, x :: rest => addList quoted (if quoted then f.extend x else f.spread x).close rest

def add (f : Fields) : Fragment → Fields
  | .whole bytes _ => f.extend bytes
  | .loose bytes => f.spread bytes
  | .list items quoted => addList quoted f items

def ofFragments (fragments : List Fragment) : List Bytes :=
  ((fragments.foldl add {}).close.finished).reverse

end Fields

def blankJoined : List Bytes → Bytes
  | [] => []
  | [x] => x
  | x :: rest => x ++ 0x20 :: blankJoined rest

def Fragment.bytes : Fragment → Bytes
  | whole bytes _ => bytes
  | loose bytes => bytes
  | list items _ => blankJoined items

def joined (fragments : List Fragment) : Bytes := fragments.flatMap Fragment.bytes

def Fragment.marks : Fragment → List Mark
  | whole bytes quoted => bytes.map (⟨·, quoted⟩)
  | loose bytes => bytes.map (⟨·, false⟩)
  | list items quoted => (blankJoined items).map (⟨·, quoted⟩)

def patternOf (fragments : List Fragment) : List Mark := fragments.flatMap Fragment.marks

def trimmed (bytes : Bytes) : Bytes :=
  ((bytes.filter (· ≠ 0)).reverse.dropWhile (· = 0x0A)).reverse

end ModuleTree.Shell
