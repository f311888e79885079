import ModuleTree.FileSystem.Basic
/- Everything below a directory. -/
namespace ModuleTree.FileSystem

/-- Nodes below the given entries, each with its path from where the listing starts. A
directory is looked into unless one of the directories around it is the same one. -/
def nodesBelow (fs : FileSystem) (free : List NodeId) (around : Bytes) :
    List (Bytes × NodeId) → List (Bytes × Node)
  | [] => []
  | (name, id) :: rest =>
    let path := around ++ name
    match fs.node? id with
    | none => nodesBelow fs free around rest
    | some node =>
      let inner :=
        if _h : id ∈ free then nodesBelow fs (free.erase id) (path ++ [Path.slash]) (fs.entries id)
        else []
      (path, node) :: inner ++ nodesBelow fs free around rest
  termination_by entries => (free.length, entries.length)
  decreasing_by
    · exact Prod.Lex.right _ (by simp)
    · exact Prod.Lex.left _ _ (by
        have := List.length_erase_of_mem _h
        have := List.length_pos_of_mem _h
        omega)
    · exact Prod.Lex.right _ (by simp)

def listing (fs : FileSystem) : List (Bytes × Node) :=
  (fs.nodesBelow (List.range fs.nodes.size) [] (fs.entries fs.home)).mergeSort
    fun a b => decide (a.1 ≤ b.1)

end ModuleTree.FileSystem
