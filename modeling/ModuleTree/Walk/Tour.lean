import ModuleTree.FileSystem.Operations
import ModuleTree.Path.Name
import ModuleTree.Error
/- The tour of one input root: its regular files depth first, names in byte order, hidden
   entries left out with all below them. Links are followed. A link that leads back to a
   directory around it, and a directory that cannot be looked into, end the tour. -/
namespace ModuleTree

structure Found where
  path : Path
  relative : Path
  deriving DecidableEq, Repr

inductive Visit where
  | root (path : Path)
  | hidden (path : Path)
  | irregular (path : Path)
  | file (found : Found)
  deriving DecidableEq, Repr

structure Tour where
  visits : List Visit := []
  failure : Option WalkError := none
  deriving DecidableEq, Repr

/-- Directories around a place, the nearest first, each as it was reached. -/
abbrev Trail := List (NodeId × Path)

namespace Tour

def failed (e : WalkError) : Tour := ⟨[], some e⟩

def append (a b : Tour) : Tour :=
  match a.failure with
  | some _ => a
  | none => ⟨a.visits ++ b.visits, b.failure⟩

instance : Append Tour := ⟨append⟩

/-- An error on the way, blamed on the root when no path comes with it. What still is a
directory by its path is one that could not be listed. -/
def fault (fs : FileSystem) (root : Path) (reported : Option Path) (e : IoError) : WalkError :=
  let path := reported.getD root
  ⟨path, if fs.isDirectory path then .readDirectory reported e else .stat reported e⟩

/-- What an entry stands for: a link for the node it leads to, which must not be a
directory on the trail. -/
def identify (fs : FileSystem) (root : Path) (trail : Trail) (path : Path) (id : NodeId) :
    Except WalkError NodeId :=
  match fs.node? id with
  | some (.link _) =>
    match fs.resolve path with
    | .error e => .error (fault fs root (some path) e)
    | .ok id =>
      if fs.isDirectoryNode id then
        match fs.openNode id with
        | .error e => .error (fault fs root none e)
        | .ok id =>
          match trail.find? (·.1 = id) with
          | some (_, ancestor) => .error ⟨path, .loop ancestor⟩
          | none => .ok id
      else .ok id
  | _ => .ok id

inductive Arrival where
  | pass (visit : Visit)
  | inside (id : NodeId) (entries : List (Bytes × NodeId))
  deriving DecidableEq, Repr

def foundAt (root : Path) (isRoot : Bool) (path : Path) : Except WalkError Arrival :=
  match Path.relativeToRoot root isRoot path with
  | .error e => .error ⟨path, .unrelated e⟩
  | .ok relative => .ok (.pass (.file ⟨path, relative⟩))

def inOrder (entries : List (Bytes × NodeId)) : List (Bytes × NodeId) :=
  entries.mergeSort fun a b => decide (a.1 ≤ b.1)

def arrive (fs : FileSystem) (root : Path) (trail : Trail) (isHidden : Bool) (path : Path)
    (id : NodeId) : Except WalkError Arrival :=
  match identify fs root trail path id with
  | .error e => .error e
  | .ok id =>
    if isHidden then .ok (.pass (.hidden path))
    else
      match fs.node? id with
      | some (.directory _ _) =>
        match fs.readDirectory path with
        | .error e => .error (fault fs root (some path) e)
        | .ok entries => .ok (.inside id (inOrder entries))
      | some (.file _) => foundAt root trail.isEmpty path
      | _ => .ok (.pass (.irregular path))

def enterRoot (fs : FileSystem) (root : Path) : Except WalkError Arrival :=
  match fs.resolveLink root with
  | .error e => .error (fault fs root (some root) e)
  | .ok id => arrive fs root [] false root id

def others (fs : FileSystem) (id : NodeId) : List NodeId := (List.range fs.nodes.size).erase id

/-- Tour of the entries of a directory. Those in `free` are off the trail. A directory on the
trail may come again by its own name; those in `ahead` have not done so since the trail last
came to one that was off it. No directory is below itself, so that `ahead` holds whatever
comes next. -/
def ofEntries (fs : FileSystem) (root : Path) (free ahead : List NodeId) (trail : Trail)
    (directory : Path) : List (Bytes × NodeId) → Tour
  | [] => {}
  | (name, id) :: rest =>
    let path := directory.child name
    let first : Tour :=
      match arrive fs root trail (Path.isHidden name) path id with
      | .error e => failed e
      | .ok (.pass visit) => ⟨[visit], none⟩
      | .ok (.inside id entries) =>
        if _off : id ∈ free then
          ofEntries fs root (free.erase id) (others fs id) ((id, path) :: trail) path entries
        else if _again : id ∈ ahead then
          ofEntries fs root free (ahead.erase id) ((id, path) :: trail) path entries
        else failed ⟨path, .loop path⟩
    first ++ ofEntries fs root free ahead trail directory rest
  termination_by entries => (free.length, ahead.length, entries.length)
  decreasing_by
    · exact Prod.Lex.left _ _ (by
        have := List.length_erase_of_mem _off
        have := List.length_pos_of_mem _off
        omega)
    · exact Prod.Lex.right _ (Prod.Lex.left _ _ (by
        have := List.length_erase_of_mem _again
        have := List.length_pos_of_mem _again
        omega))
    · exact Prod.Lex.right _ (Prod.Lex.right _ (by simp))

def ofRoot (fs : FileSystem) (root : Path) : Tour :=
  match enterRoot fs root with
  | .error e => failed e
  | .ok (.pass visit) => ⟨[visit], none⟩
  | .ok (.inside id entries) =>
    ofEntries fs root (others fs id) (others fs id) [(id, root)] root entries

def ofRoots (fs : FileSystem) : List Path → Tour
  | [] => {}
  | root :: roots => (⟨[.root root], none⟩ : Tour) ++ (ofRoot fs root ++ ofRoots fs roots)

def Visit.found? : Visit → Option Found
  | .file found => some found
  | _ => none

def files (t : Tour) : List Found := t.visits.filterMap Visit.found?

def count (t : Tour) : Except WalkError Nat :=
  match t.failure with
  | some e => .error e
  | none => .ok t.files.length

end Tour

end ModuleTree
