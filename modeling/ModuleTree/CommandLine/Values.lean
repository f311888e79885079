import ModuleTree.CommandLine.Parameter
import ModuleTree.Compiler.Command
/- The values that a command line gives to its parameters. -/
namespace ModuleTree

inductive Ending where
  | error (error : ArgumentError)
  | help
  | version
  deriving DecidableEq, Repr

def jobLimit : Nat := 0xFFFFFFFFFFFFFFFF

def readDigits : Nat → List Char → Except NumberFault Nat
  | n, [] => .ok n
  | n, c :: rest =>
    if !c.isDigit then .error .digit
    else
      let n := n * 10 + (c.toNat - '0'.toNat)
      if jobLimit < n then .error .tooLarge else readDigits n rest

def readJobs (text : String) : Except NumberFault Nat :=
  match text.toList with
  | [] => .error .empty
  | ['+'] => .error .digit
  | '+' :: digits => readDigits 0 digits
  | digits => readDigits 0 digits

structure Values where
  inputs : List Path := []
  format : Option Format := none
  destination : Option Path := none
  imports : Option ImportMap := none
  graph : Bool := false
  inferName : Bool := false
  moduleName : Option String := none
  stream : Bool := false
  globalName : Option String := none
  jobs : Option Nat := none
  compiler : Option String := none
  compilerArguments : List String := []

namespace Values

def readPath (p : Parameter) (text : String) : Except Ending Path :=
  if text.isEmpty then .error (.error (.missingValue p)) else .ok (Path.ofString text)

def isGiven (v : Values) : Parameter → Bool
  | .format => v.format.isSome
  | .destination => v.destination.isSome
  | .imports => v.imports.isSome
  | .graph => v.graph
  | .inferName => v.inferName
  | .moduleName => v.moduleName.isSome
  | .stream => v.stream
  | .globalName => v.globalName.isSome
  | .jobs => v.jobs.isSome
  | .compiler => v.compiler.isSome
  | .inputs | .compilerArgument | .help | .version => false

def raise (v : Values) (p : Parameter) : Except Ending Values :=
  if v.isGiven p then .error (.error (.repeated p))
  else
    match p with
    | .help => .error .help
    | .version => .error .version
    | .graph => .ok { v with graph := true }
    | .inferName => .ok { v with inferName := true }
    | .stream => .ok { v with stream := true }
    | _ => .error (.error (.missingValue p))

def give (v : Values) (p : Parameter) (text : String) : Except Ending Values :=
  if v.isGiven p then .error (.error (.repeated p))
  else
    let badSetting (e : UsageError) : Ending := .error (.badSetting p text e)
    match p with
    | .inputs => do
      let input ← readPath p text
      return { v with inputs := v.inputs ++ [input] }
    | .format => do
      let format ← (Format.ofText text).mapError badSetting
      return { v with format := some format }
    | .destination => do
      let destination ← readPath p text
      return { v with destination := some destination }
    | .imports => do
      let imports ← (ImportMap.read text).mapError badSetting
      return { v with imports := some imports }
    | .jobs => do
      let jobs ← (readJobs text).mapError fun fault => .error (.badNumber p text fault)
      return { v with jobs := some jobs }
    | .moduleName => .ok { v with moduleName := some text }
    | .globalName => .ok { v with globalName := some text }
    | .compiler => .ok { v with compiler := some text }
    | .compilerArgument => .ok { v with compilerArguments := v.compilerArguments ++ [text] }
    | .graph | .inferName | .stream | .help | .version => .error (.error (.unexpectedValue p text))

def usage (v : Values) : Usage where
  inputs := v.inputs
  stream := v.stream
  destination := v.destination
  format := v.format.getD .amd
  imports := v.imports
  graph := v.graph
  inferName := v.inferName
  moduleName := v.moduleName
  globalName := v.globalName

end Values

end ModuleTree
