import ModuleTree.FileSystem.Fault
import ModuleTree.Path.Relative
import ModuleTree.Barrier
import ModuleTree.Json.Fault
import ModuleTree.Text.Quoted
/- All that can go wrong in a run: what happened, in one line, and the causes below it. -/
namespace ModuleTree

inductive Endpoint where
  | file (path : Path)
  | standardInput
  | standardOutput
  deriving DecidableEq, Repr

def Endpoint.text : Endpoint → String
  | file path => path.quoted
  | standardInput => "standard input"
  | standardOutput => "standard output"

inductive Cause where
  | system (error : IoError)
  | response (fault : Json.Fault) (text : String)
  | visit (path : Option Path) (error : IoError)
  | strip
  | plain (message : String)
  deriving DecidableEq, Repr

def Cause.message : Cause → String
  | system error => error.message
  | response fault text => fault.message text
  | visit none error => error.message
  | visit (some path) error =>
    s!"IO error for operation on {Text.lossy path.bytes}: {error.message}"
  | strip => "prefix not found"
  | plain message => message

inductive StreamAction where
  | openInput
  | createOutput
  | createDirectory
  | readAll
  | writeAll
  deriving DecidableEq, Repr

structure StreamError where
  endpoint : Endpoint
  action : StreamAction
  error : IoError
  deriving DecidableEq, Repr

def StreamAction.text : StreamAction → String
  | openInput => "open"
  | createOutput => "create"
  | createDirectory => "create directory"
  | readAll => "read"
  | writeAll => "write"

def StreamError.message (e : StreamError) : String :=
  s!"unable to {e.action.text} {e.endpoint.text}"

def StreamError.causes (e : StreamError) : List Cause := [.system e.error]

inductive WalkProblem where
  | stat (reported : Option Path) (error : IoError)
  | readDirectory (reported : Option Path) (error : IoError)
  | loop (ancestor : Path)
  | unrelated (error : Path.StripError)
  | outputCollision (first output : Path)
  deriving DecidableEq, Repr

structure WalkError where
  path : Path
  problem : WalkProblem
  deriving DecidableEq, Repr

namespace WalkError

def isDirectoryRead (e : WalkError) : Bool :=
  match e.problem with
  | .readDirectory _ _ => true
  | _ => false

def message (e : WalkError) : String :=
  match e.problem with
  | .stat _ _ => s!"unable to stat {e.path.quoted}"
  | .readDirectory _ _ => s!"unable to read directory {e.path.quoted}"
  | .loop ancestor => s!"filesystem loop: {e.path.quoted} leads back to {ancestor.quoted}"
  | .unrelated _ => s!"unable to resolve output path for {e.path.quoted}"
  | .outputCollision first output =>
    s!"{first.quoted} and {e.path.quoted} would both be compiled to {output.quoted}"

def causes (e : WalkError) : List Cause :=
  match e.problem with
  | .stat path error | .readDirectory path error => [.visit path error, .system error]
  | .unrelated error => [.plain error.message, .strip]
  | .loop _ | .outputCollision _ _ => []

end WalkError

inductive CompileError where
  | spawn (error : IoError)
  | exit (command : String) (stderr : Bytes)
  | invalidUtf8 (fault : Text.Fault)
  | response (fault : Json.Fault) (text : String)
  | rejected (reason : String)
  deriving DecidableEq, Repr

namespace CompileError

def message : CompileError → String
  | spawn _ => "unable to spawn compiler process"
  | exit command stderr =>
    s!"compiler exited with non-zero status code for command {Text.quoted command}:\n{Text.lossy stderr}"
  | invalidUtf8 _ => "compiler output included invalid UTF-8"
  | response _ _ => "unable to parse compiler response"
  | rejected reason => s!"compile failed: {reason}"

def causes : CompileError → List Cause
  | spawn error => [.system error]
  | exit _ _ => []
  | invalidUtf8 fault => [.plain fault.message]
  | response fault text => [.response fault text]
  | rejected _ => []

end CompileError

inductive GraphError where
  | duplicateModule (name : String)
  | directory (error : StreamError)
  | write (path : Path) (error : IoError)
  deriving DecidableEq, Repr

namespace GraphError

def message : GraphError → String
  | duplicateModule name => s!"two input files resolve to the module name {Text.quoted name}"
  | directory error => error.message
  | write path _ => s!"unable to write dependency graph to {path.quoted}"

def causes : GraphError → List Cause
  | duplicateModule _ => []
  | directory error => error.causes
  | write _ error => [.system error]

end GraphError

inductive RunError where
  | walk (error : WalkError)
  | stream (error : StreamError)
  | compile (endpoint : Endpoint) (error : CompileError)
  | graph (error : GraphError)
  | barrier (fault : Barrier.Fault)
  | aggregator
  | incomplete (remaining expected : Nat)
  deriving DecidableEq, Repr

namespace RunError

def isDirectoryRead : RunError → Bool
  | walk error => error.isDirectoryRead
  | _ => false

def message : RunError → String
  | walk error => error.message
  | stream error => error.message
  | compile endpoint _ => s!"Error compiling {endpoint.text}"
  | graph _ => "Error recording the dependency graph"
  | barrier _ => "Error tracking completed files"
  | aggregator => "The completion aggregator stopped before the run finished"
  | incomplete remaining expected =>
    s!"Run finished with {remaining} of {expected} files never reported complete"

def causes : RunError → List Cause
  | walk error => error.causes
  | stream error => error.causes
  | compile _ error => .plain error.message :: error.causes
  | graph error => .plain error.message :: error.causes
  | barrier fault => [.plain fault.message]
  | aggregator | incomplete _ _ => []

end RunError

end ModuleTree
