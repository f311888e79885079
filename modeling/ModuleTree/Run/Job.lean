import ModuleTree.Stream.Compile
import ModuleTree.Directory
import ModuleTree.Walk.Discovery
/- The work of one job: its directory, its two files, the compile between them, and the
   reports about it. -/
namespace ModuleTree

def report (event : Event) : Procedure (Except RunError Unit) := do
  if ← .call (.report event) then return .ok () else return .error .aggregator

def fileCalls (input output : NodeId) : StreamCalls Procedure where
  readAll := .call (.readFile input)
  compile request := .call (.compile request)
  writeAll bytes := .call (.writeFile output bytes)
  note notice := .call (.note notice)

def ensureParent (output : Path) : Procedure (Except StreamError Unit) :=
  match output.parent? with
  | none => .done (.ok ())
  | some parent => ensureDirectory parent

def openFiles (job : Job) : Procedure (Except StreamError (NodeId × NodeId)) := do
  match ← ensureParent job.output with
  | .error e => return .error e
  | .ok () =>
    match ← .call (.openFile job.input) with
    | .error e => return .error ⟨.file job.input, .openInput, e⟩
    | .ok input =>
      match ← .call (.createFile job.output) with
      | .error e => return .error ⟨.file job.output, .createOutput, e⟩
      | .ok output => return .ok (input, output)

def reportCompiled (job : Job) (settings : Settings) (compiled : Compiled) :
    Procedure (Except RunError Unit) :=
  if settings.graph then report (.compiled job.nodeName compiled.dependencies)
  else .done (.ok ())

def compileFile (settings : Settings) (job : Job) : Procedure (Except RunError Unit) := do
  .call (.note ⟨.debug, .run, s!"compiling {job.input.quoted} to {job.output.quoted}"⟩)
  match ← openFiles job with
  | .error e => return .error (.stream e)
  | .ok (input, output) =>
    match ← compileStream (fileCalls input output) (.file job.input) (.file job.output)
        job.moduleName settings (reportCompiled job settings) with
    | .error e => return .error e
    | .ok _ => report (.finished job.output)

end ModuleTree
