import ModuleTree.Graph.Basic
import ModuleTree.Directory
/- Collecting the dependency graph of a run, and writing it down. -/
namespace ModuleTree

/-- Without a graph nothing is collected and nothing is written. -/
structure Accumulator where
  graph : Option Graph
  deriving DecidableEq

namespace Accumulator

def new (enabled : Bool) : Accumulator := ⟨if enabled then some .empty else none⟩

def append (a : Accumulator) (name : String) (requires : List String) :
    Except GraphError Accumulator :=
  match a.graph with
  | none => .ok a
  | some g =>
    if (g.get? name).isSome then .error (.duplicateModule name)
    else .ok ⟨some (g.insert name requires)⟩

def remark? (a : Accumulator) (name : String) (requires : List String) : Option Notice :=
  match a.graph, a.append name requires with
  | some _, .ok _ => some ⟨.debug, .graph, s!"{name} requires {Text.quotedList requires}"⟩
  | _, _ => none

def fileName : Bytes := Text.encode "graph.json"

def fileText (g : Graph) : String := g.toJson ++ "\n"

def flush (a : Accumulator) (destination : Path) : Procedure (Except GraphError (Option Path)) :=
  match a.graph with
  | none => .done (.ok none)
  | some g => do
    match ← ensureDirectory destination with
    | .error e => return .error (.directory e)
    | .ok () =>
      let path := destination.child fileName
      match ← .call (.createFile path) with
      | .error e => return .error (.write path e)
      | .ok file =>
        match ← .call (.writeFile file (fileText g).toUTF8) with
        | .error e => return .error (.write path e)
        | .ok () =>
          .call (.note ⟨.info, .graph,
            s!"wrote dependency graph of {g.size} modules to {path.quoted}"⟩)
          return .ok (some path)

end Accumulator

end ModuleTree
