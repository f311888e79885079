import ModuleTree.Walk.Tour
import ModuleTree.Usage
import ModuleTree.Notice
/- The jobs of a run: one for each file that is found, and one for each output. -/
namespace ModuleTree

structure Job where
  input : Path
  relative : Path
  output : Path
  moduleName : Option String
  nodeName : String
  deriving DecidableEq, Repr

namespace Job

def moduleNameFor (settings : Settings) (relative : Path) : Option String :=
  match settings.moduleName with
  | some name => some name
  | none => if settings.inferName then some relative.inferModuleName else none

def ofFound (destination : Path) (settings : Settings) (found : Found) : Job where
  input := found.path
  relative := found.relative
  output := destination.append found.relative
  moduleName := moduleNameFor settings found.relative
  nodeName := (moduleNameFor settings found.relative).getD found.relative.inferModuleName

end Job

namespace Discovery

abbrev Taken := List (List Path.Component × Job)

inductive Placement where
  | fresh (output : List Path.Component)
  | again
  | collision (error : WalkError)

/-- A file reached again needs no second job; two files cannot share an output. -/
def place (taken : Taken) (job : Job) : Placement :=
  let output := job.output.components
  match taken.find? (·.1 = output) with
  | none => .fresh output
  | some (_, first) =>
    if first.input.components = job.input.components then .again
    else .collision ⟨job.input, .outputCollision first.input job.output⟩

def walkerNote (level : Level) (message : String) : Notice := ⟨level, .walker, message⟩

def collect (destination : Path) (settings : Settings) (failure : Option WalkError)
    (taken : Taken) (log : List Notice) : List Visit → Except WalkError (List Job) × List Notice
  | [] =>
    match failure with
    | some e => (.error e, log)
    | none =>
      (.ok (taken.reverse.map (·.2)),
        walkerNote .debug s!"discovered {taken.length} files" :: log)
  | .root path :: rest =>
    collect destination settings failure taken
      (walkerNote .trace s!"walking {path.quoted}" :: log) rest
  | .hidden path :: rest =>
    collect destination settings failure taken
      (walkerNote .trace s!"skipping hidden entry {path.quoted}" :: log) rest
  | .irregular path :: rest =>
    collect destination settings failure taken
      (walkerNote .debug s!"skipping {path.quoted}: not a regular file" :: log) rest
  | .file found :: rest =>
    let job := Job.ofFound destination settings found
    match place taken job with
    | .fresh output => collect destination settings failure ((output, job) :: taken) log rest
    | .again =>
      collect destination settings failure taken
        (walkerNote .debug s!"{job.input.quoted} found more than once, compiling it once" :: log)
        rest
    | .collision e => (.error e, log)

def narrated (fs : FileSystem) (roots : List Path) (destination : Path) (settings : Settings) :
    Except WalkError (List Job) × List Notice :=
  let tour := Tour.ofRoots fs roots
  collect destination settings tour.failure [] [] tour.visits

def jobs (fs : FileSystem) (roots : List Path) (destination : Path) (settings : Settings) :
    Except WalkError (List Job) :=
  (narrated fs roots destination settings).1

end Discovery

end ModuleTree
