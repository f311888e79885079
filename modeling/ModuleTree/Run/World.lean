import ModuleTree.FileSystem.Operations
import ModuleTree.Compiler.Basic
/- The surroundings of a run: files, a compiler, and a log. -/
namespace ModuleTree

structure World where
  files : FileSystem
  compiler : Compiler
  calls : Nat := 0
  log : List Notice := []

namespace World

def note (w : World) (notice : Notice) : World := { w with log := notice :: w.log }

def changing {α : Type} (w : World) (outcome : Except IoError (α × FileSystem)) :
    Except IoError α × World :=
  match outcome with
  | .error e => (.error e, w)
  | .ok (a, files) => (.ok a, { w with files })

def compiling (w : World) (request : Request) : Except CompileError Compiled × World :=
  (w.compiler.compile request,
    { w with calls := w.calls + 1, log := (w.compiler.announce request).reverse ++ w.log })

def answer (call : Call) (w : World) : call.Answer × World :=
  match call with
  | .pathExists p => (w.files.pathExists p, w)
  | .isDirectory p => (w.files.isDirectory p, w)
  | .makeDirectory p => w.changing ((w.files.makeDirectory p).map fun files => ((), files))
  | .openFile p => (w.files.openFile p, w)
  | .createFile p => w.changing (w.files.createFile p)
  | .readFile file => (w.files.readNode file, w)
  | .writeFile file bytes => (.ok (), { w with files := w.files.writeNode file bytes })
  | .compile request => w.compiling request
  | .report _ => (false, w)
  | .note notice => ((), w.note notice)

def perform {α : Type} (p : Procedure α) (w : World) : α × World := p.run answer w

end World

end ModuleTree
