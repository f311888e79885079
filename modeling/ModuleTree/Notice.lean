/- Notices that a run leaves in its log. -/
namespace ModuleTree

inductive Level where
  | error
  | warn
  | info
  | debug
  | trace
  deriving DecidableEq, Repr

def Level.rank : Level → Nat
  | error => 1
  | warn => 2
  | info => 3
  | debug => 4
  | trace => 5

def Level.text : Level → String
  | error => "ERROR"
  | warn => "WARN"
  | info => "INFO"
  | debug => "DEBUG"
  | trace => "TRACE"

inductive Topic where
  | program
  | run
  | walker
  | stream
  | directory
  | graph
  | compiler
  deriving DecidableEq, Repr

def Topic.text : Topic → String
  | program => "compile_modules"
  | run => "compile_modules::run"
  | walker => "compile_modules::walker"
  | stream => "compile_modules::stream"
  | directory => "compile_modules::directory"
  | graph => "compile_modules::graph"
  | compiler => "compile_modules::compiler"

structure Notice where
  level : Level
  topic : Topic
  message : String
  deriving DecidableEq, Repr

end ModuleTree
