import ModuleTree.CommandLine.Arguments
import ModuleTree.CommandLine.Help
import ModuleTree.CommandLine.Report
import ModuleTree.Notice.Filter
import ModuleTree.Compiler.Host
import ModuleTree.Stream.Session
import ModuleTree.Run.Sequential
/- A command line from its arguments to the exit status. -/
namespace ModuleTree.CommandLine

structure Surroundings where
  files : FileSystem
  input : ByteArray := .empty
  filter : Option String := none

structure Outcome where
  status : Nat
  output : ByteArray := .empty
  log : List Notice := []
  errors : String := ""
  files : FileSystem

def failure (e : RunError) (log : List Notice) (files : FileSystem) : Outcome :=
  if e.isDirectoryRead then { status := 1, log := log ++ [⟨.error, .program, e.summary⟩], files }
  else { status := 1, log, errors := e.report, files }

def summaryNotices (s : Summary) : List Notice :=
  ⟨.info, .program, s!"compiled {s.files} files"⟩ ::
    s.graph.toList.map fun path => ⟨.info, .program, s!"dependency graph: {path.quoted}"⟩

def streamOutcome (compiler : Compiler) (settings : Settings) (s : Surroundings) : Outcome :=
  let session : Session := { compiler, reader := ⟨[s.input], none⟩ }
  let (result, session) := compileStandard Session.streamCalls settings session
  let log := session.log.reverse
  match result with
  | .error e => { failure e log s.files with output := session.sink.written }
  | .ok _ => { status := 0, output := session.sink.written, log, files := s.files }

def treeOutcome (compiler : Compiler) (settings : Settings) (destination : Path)
    (roots : List Path) (s : Surroundings) : Outcome :=
  let world : World := { files := s.files, compiler }
  let (result, world) := runTree settings destination roots world
  let log := world.log.reverse
  match result with
  | .error e => failure e log world.files
  | .ok summary => { status := 0, log := log ++ summaryNotices summary, files := world.files }

def invoke (i : Invocation) (s : Surroundings) : Outcome :=
  let compiler := i.command.compiler (Host.spawn s.files)
  match i.plan with
  | .stream settings => streamOutcome compiler settings s
  | .tree roots destination settings => treeOutcome compiler settings destination roots s

def run (arguments : List String) (s : Surroundings) : Outcome :=
  match Invocation.ofArguments arguments with
  | .error .help => { status := 0, output := help.toUTF8, files := s.files }
  | .error .version => { status := 0, output := version.toUTF8, files := s.files }
  | .error (.error e) => { status := 2, errors := complaint e, files := s.files }
  | .ok invocation => invoke invocation s

def Surroundings.noticeFilter (s : Surroundings) : NoticeFilter × List FilterFault :=
  NoticeFilter.ofText (s.filter.getD "info")

/-- The error stream: first what is wrong with the filter, then the notices that it lets
through, then the last word. -/
def errorStream (s : Surroundings) (o : Outcome) : String :=
  let (filter, faults) := s.noticeFilter
  String.join (faults.map (·.message ++ "\n"))
    ++ String.join ((o.log.filter filter.shows).map Notice.line) ++ o.errors

end ModuleTree.CommandLine
