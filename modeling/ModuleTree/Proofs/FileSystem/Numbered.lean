import Mathlib.Data.List.Nodup
import Mathlib.Data.List.Pairwise
import ModuleTree.Proofs.FileSystem.Level
/- File systems whose nodes are numbered from above. One look at each node tells whether such a
   file system is sound, and that it has no hard links. -/
namespace ModuleTree

instance (name : Bytes) : Decidable (Path.IsName name) :=
  decidable_of_iff
    (name ≠ [] ∧ Path.slash ∉ name ∧ name ≠ [Path.dot] ∧ name ≠ [Path.dot, Path.dot])
    ⟨fun ⟨nonempty, free, here, up⟩ => ⟨nonempty, free, here, up⟩,
      fun h => ⟨h.nonempty, h.slashFree, h.notHere, h.notUp⟩⟩

namespace FileSystem

def above? (fs : FileSystem) (id : NodeId) : Option NodeId :=
  match fs.node? id with
  | some (.directory parent _) => some parent
  | _ => none

def isFileNode (fs : FileSystem) (id : NodeId) : Bool :=
  match fs.node? id with
  | some (.file _) => true
  | _ => false

/-- A node with greater numbers below it. -/
structure Numbered (fs : FileSystem) (id : NodeId) : Prop where
  below : ∀ entry ∈ fs.entries id, id < entry.2 ∧ entry.2 < fs.nodes.size
  named : ∀ entry ∈ fs.entries id, Path.IsName entry.1
  distinct : ((fs.entries id).map Prod.fst).Nodup
  above : ∀ parent ∈ fs.above? id, fs.isDirectoryNode parent

instance (fs : FileSystem) (id : NodeId) : Decidable (fs.Numbered id) :=
  decidable_of_iff
    ((∀ entry ∈ fs.entries id, id < entry.2 ∧ entry.2 < fs.nodes.size) ∧
      (∀ entry ∈ fs.entries id, Path.IsName entry.1) ∧ ((fs.entries id).map Prod.fst).Nodup ∧
        ∀ parent ∈ fs.above? id, fs.isDirectoryNode parent)
    ⟨fun ⟨below, named, distinct, above⟩ => ⟨below, named, distinct, above⟩,
      fun h => ⟨h.below, h.named, h.distinct, h.above⟩⟩

variable {fs : FileSystem} {id : NodeId}

theorem node_of_above? {parent : NodeId} (h : fs.above? id = some parent) :
    ∃ entries, fs.node? id = some (.directory parent entries) := by
  unfold above? at h
  split at h
  · rename_i entries node
    cases h
    exact ⟨entries, node⟩
  · cases h

theorem file_of_isFileNode (h : fs.isFileNode id) :
    ∃ content, fs.node? id = some (.file content) := by
  unfold isFileNode at h
  split at h
  · rename_i content node
    exact ⟨content, node⟩
  · cases h

theorem sound_of_numbered (root : fs.isDirectoryNode fs.root) (home : fs.isDirectoryNode fs.home)
    (numbered : ∀ id < fs.nodes.size, fs.Numbered id) : fs.Sound where
  inside id entry mem := ((numbered id (id_lt_of_mem_entries mem)).below entry mem).2
  named id entry mem := (numbered id (id_lt_of_mem_entries mem)).named entry mem
  distinct id := by
    by_cases inside : id < fs.nodes.size
    · exact (numbered id inside).distinct
    · have none : fs.entries id = [] := by
        apply List.eq_nil_iff_forall_not_mem.mpr
        intro entry mem
        exact inside (id_lt_of_mem_entries mem)
      rw [none]
      exact List.nodup_nil
  parents id parent entries here := by
    refine (numbered id (lt_size_of_node? here)).above parent ?_
    simp [above?, here]
  root := root
  home := home
  ranked := ⟨id, fun id entry mem => ((numbered id (id_lt_of_mem_entries mem)).below entry mem).1⟩

theorem noHardLinks_of_nodup
    (once : ((List.range fs.nodes.size).flatMap fun id => (fs.entries id).map Prod.snd).Nodup) :
    fs.NoHardLinks := by
  obtain ⟨inside, across⟩ := List.nodup_flatMap.mp once
  intro id id' entry mem entry' mem' same
  have here := List.mem_range.mpr (id_lt_of_mem_entries mem)
  have there := List.mem_range.mpr (id_lt_of_mem_entries mem')
  have one : id = id' := by
    by_contra differ
    have disjoint : Std.Symm (Function.onFun List.Disjoint fun id =>
        (fs.entries id).map Prod.snd) := ⟨fun _ _ apart _ one other => apart other one⟩
    have apart := across.forall here there differ
    exact apart (List.mem_map_of_mem mem) (same ▸ List.mem_map_of_mem mem')
  subst one
  exact ⟨rfl, List.inj_on_of_nodup_map (inside id here) mem mem' same⟩

theorem clean_of_linkless {destination : Path}
    (linkless : ∀ id < fs.nodes.size, ∀ entry ∈ fs.entries id,
      fs.isDirectoryNode entry.2 ∨ fs.isFileNode entry.2) : fs.Clean destination := by
  intro top _ names id _ entry mem
  have kind := linkless id (id_lt_of_mem_entries mem) entry mem
  exact kind.imp_right file_of_isFileNode

end FileSystem

end ModuleTree
