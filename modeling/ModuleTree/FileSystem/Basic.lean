import ModuleTree.FileSystem.Fault
import ModuleTree.Path.Basic
/- A file system: nodes by number, directories holding names in byte order. A locked
   node may be seen but neither read, written nor looked into. -/
namespace ModuleTree

abbrev NodeId := Nat

instance contentEq : DecidableEq ByteArray := ByteArray.instDecidableEq

inductive Node where
  | file (content : ByteArray)
  | directory (parent : NodeId) (entries : List (Bytes × NodeId))
  | link (target : Path)
  | special
  deriving DecidableEq

structure FileSystem where
  nodes : Array Node
  root : NodeId
  home : NodeId
  locked : List NodeId := []
  deriving DecidableEq

namespace FileSystem

def empty : FileSystem := ⟨#[.directory 0 []], 0, 0, []⟩

instance : Inhabited FileSystem := ⟨empty⟩

def node? (fs : FileSystem) (id : NodeId) : Option Node := fs.nodes[id]?

def isLocked (fs : FileSystem) (id : NodeId) : Bool := fs.locked.contains id

def isDirectoryNode (fs : FileSystem) (id : NodeId) : Bool :=
  match fs.node? id with
  | some (.directory _ _) => true
  | _ => false

def entries (fs : FileSystem) (id : NodeId) : List (Bytes × NodeId) :=
  match fs.node? id with
  | some (.directory _ entries) => entries
  | _ => []

def setNode (fs : FileSystem) (id : NodeId) (node : Node) : FileSystem :=
  { fs with nodes := fs.nodes.setIfInBounds id node }

def putEntry (name : Bytes) (id : NodeId) : List (Bytes × NodeId) → List (Bytes × NodeId)
  | [] => [(name, id)]
  | entry :: rest =>
    if name < entry.1 then (name, id) :: entry :: rest
    else if entry.1 < name then entry :: putEntry name id rest
    else (name, id) :: rest

def addNode (fs : FileSystem) (directory : NodeId) (name : Bytes) (node : Node) :
    NodeId × FileSystem :=
  let id := fs.nodes.size
  let grown := { fs with nodes := fs.nodes.push node }
  match fs.node? directory with
  | some (.directory parent entries) =>
    (id, grown.setNode directory (.directory parent (putEntry name id entries)))
  | _ => (id, grown)

def dropEntry (fs : FileSystem) (directory : NodeId) (name : Bytes) : FileSystem :=
  match fs.node? directory with
  | some (.directory parent entries) =>
    fs.setNode directory (.directory parent (entries.filter (·.1 ≠ name)))
  | _ => fs

end FileSystem

end ModuleTree
