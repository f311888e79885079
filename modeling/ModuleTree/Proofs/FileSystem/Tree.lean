import ModuleTree.Proofs.FileSystem.Operations
import ModuleTree.Proofs.Path.Segments
/- File systems whose nodes form a tree. Below a directory that holds only directories and
   files each name leads to a node of its own, and new names keep it so. -/
namespace ModuleTree.FileSystem

/-- A file system as any other: what is named is there, and no directory is below itself. -/
structure Sound (fs : FileSystem) : Prop where
  inside : ∀ id, ∀ entry ∈ fs.entries id, entry.2 < fs.nodes.size
  named : ∀ id, ∀ entry ∈ fs.entries id, Path.IsName entry.1
  distinct : ∀ id, ((fs.entries id).map Prod.fst).Nodup
  parents : ∀ id parent entries, fs.node? id = some (.directory parent entries) →
    fs.isDirectoryNode parent
  root : fs.isDirectoryNode fs.root
  home : fs.isDirectoryNode fs.home
  ranked : ∃ depth : NodeId → Nat, ∀ id, ∀ entry ∈ fs.entries id, depth id < depth entry.2

def NoHardLinks (fs : FileSystem) : Prop :=
  ∀ id id', ∀ entry ∈ fs.entries id, ∀ entry' ∈ fs.entries id',
    entry.2 = entry'.2 → id = id' ∧ entry = entry'

/-- One file by two paths, whatever links there are on the way. -/
def SameFile (fs : FileSystem) (p q : Path) : Prop :=
  ∃ id, fs.resolve p = .ok id ∧ fs.resolve q = .ok id

structure Bounded (fs : FileSystem) : Prop where
  root : fs.root < fs.nodes.size
  home : fs.home < fs.nodes.size
  parents : ∀ id parent entries, fs.node? id = some (.directory parent entries) →
    parent < fs.nodes.size
  inside : ∀ id, ∀ entry ∈ fs.entries id, entry.2 < fs.nodes.size

structure Tree (fs : FileSystem) : Prop where
  root : fs.root < fs.nodes.size
  home : fs.home < fs.nodes.size
  parents : ∀ id parent entries, fs.node? id = some (.directory parent entries) →
    parent < fs.nodes.size
  inside : ∀ id, ∀ entry ∈ fs.entries id, entry.2 < fs.nodes.size
  once : fs.NoHardLinks
  ranked : ∃ depth : NodeId → Nat, ∀ id, ∀ entry ∈ fs.entries id, depth id < depth entry.2

/-- Below a node, by names alone. -/
inductive Descends (fs : FileSystem) (top : NodeId) : List Bytes → NodeId → Prop where
  | nil : Descends fs top [] top
  | concat {names : List Bytes} {name : Bytes} {id child : NodeId}
      (above : Descends fs top names id) (entry : (name, child) ∈ fs.entries id) :
      Descends fs top (names ++ [name]) child

def HoldsOnlyFiles (fs : FileSystem) (top : NodeId) : Prop :=
  ∀ names id, fs.Descends top names id → ∀ entry ∈ fs.entries id,
    fs.isDirectoryNode entry.2 ∨ ∃ content, fs.node? entry.2 = some (.file content)

def LinkFree (fs : FileSystem) (top : NodeId) : Prop :=
  ∀ names id, fs.Descends top names id → ∀ entry ∈ fs.entries id,
    ∀ target, fs.node? entry.2 ≠ some (.link target)

/-- Nothing below a node has another name, there or anywhere else. -/
def NamesOnce (fs : FileSystem) (top : NodeId) : Prop :=
  ∀ names id, fs.Descends top names id → ∀ entry ∈ fs.entries id,
    ∀ id', ∀ entry' ∈ fs.entries id', entry.2 = entry'.2 → id = id' ∧ entry = entry'

theorem NoHardLinks.namesOnce {fs : FileSystem} (once : fs.NoHardLinks) (top : NodeId) :
    fs.NamesOnce top :=
  fun _ id _ entry mem id' entry' mem' same => once id id' entry mem entry' mem' same

theorem HoldsOnlyFiles.linkFree {fs : FileSystem} {top : NodeId} (h : fs.HoldsOnlyFiles top) :
    fs.LinkFree top := by
  intro names id down entry mem target link
  rcases h names id down entry mem with directory | ⟨content, file⟩
  · simp [isDirectoryNode, link] at directory
  · simp [link] at file

section Entries

variable {fs fs' : FileSystem} {id : NodeId} {name : Bytes} {node : Node}

theorem entries_eq {parent : NodeId} {entries : List (Bytes × NodeId)}
    (h : fs.node? id = some (.directory parent entries)) : fs.entries id = entries := by
  simp [FileSystem.entries, h]

theorem node_of_mem_entries {entry : Bytes × NodeId} (h : entry ∈ fs.entries id) :
    ∃ parent, fs.node? id = some (.directory parent (fs.entries id)) := by
  unfold FileSystem.entries at h ⊢
  split at h
  · rename_i parent entries node
    exact ⟨parent, by simp [node]⟩
  · cases h

theorem mem_of_lookup {entries : List (Bytes × NodeId)} (h : entries.lookup name = some id) :
    (name, id) ∈ entries := by
  induction entries with
  | nil => cases h
  | cons entry rest ih =>
    rw [Dictionary.lookup_cons_ite] at h
    split at h
    · rename_i same
      cases h
      simp [same]
    · exact List.mem_cons_of_mem entry (ih h)

theorem lookup_of_mem {entries : List (Bytes × NodeId)} (mem : (name, id) ∈ entries)
    (distinct : (entries.map Prod.fst).Nodup) : entries.lookup name = some id := by
  induction entries with
  | nil => cases mem
  | cons entry rest ih =>
    rw [List.map_cons, List.nodup_cons] at distinct
    rw [Dictionary.lookup_cons_ite]
    rcases List.mem_cons.mp mem with same | later
    · simp [← same]
    · have differ : name ≠ entry.1 := by
        intro same
        exact distinct.1 (same ▸ List.mem_map_of_mem (f := Prod.fst) later)
      rw [if_neg differ]
      exact ih later distinct.2

theorem mem_putEntry {entries : List (Bytes × NodeId)} {entry : Bytes × NodeId}
    (mem : entry ∈ putEntry name id entries) : entry = (name, id) ∨ entry ∈ entries := by
  induction entries with
  | nil => exact .inl (List.mem_singleton.mp mem)
  | cons first rest ih =>
    unfold putEntry at mem
    split at mem
    · exact List.mem_cons.mp mem
    · split at mem
      · rcases List.mem_cons.mp mem with here | later
        · exact .inr (here ▸ List.mem_cons_self)
        · exact (ih later).imp_right (List.mem_cons_of_mem first)
      · exact (List.mem_cons.mp mem).imp_right (List.mem_cons_of_mem first)

theorem perm_putEntry {entries : List (Bytes × NodeId)} (missing : entries.lookup name = none) :
    (putEntry name id entries).Perm ((name, id) :: entries) := by
  induction entries with
  | nil => exact .refl _
  | cons first rest ih =>
    rw [Dictionary.lookup_cons_ite] at missing
    have differ : name ≠ first.1 := by
      intro same
      rw [if_pos same] at missing
      cases missing
    rw [if_neg differ] at missing
    unfold putEntry
    split
    · exact .refl _
    · rename_i notBefore
      rw [if_pos (by
        by_contra notAfter
        exact differ (List.le_antisymm (List.not_lt.mp notAfter) (List.not_lt.mp notBefore)))]
      exact ((ih missing).cons first).trans (.swap _ _ _)

theorem mem_putEntry_of_mem {entries : List (Bytes × NodeId)} {entry : Bytes × NodeId}
    (missing : entries.lookup name = none) (mem : entry ∈ entries) :
    entry ∈ putEntry name id entries :=
  (perm_putEntry missing).mem_iff.mpr (List.mem_cons_of_mem _ mem)

theorem entries_addNode {directory parent : NodeId} {entries : List (Bytes × NodeId)}
    (here : fs.node? directory = some (.directory parent entries)) (blank : Blank directory node)
    {other : NodeId} {entry : Bytes × NodeId}
    (mem : entry ∈ (fs.addNode directory name node).2.entries other) :
    other = directory ∧ entry = (name, fs.nodes.size) ∨ entry ∈ fs.entries other := by
  unfold FileSystem.entries at mem
  rw [node?_addNode here] at mem
  by_cases same : other = directory
  · subst same
    rw [if_pos rfl] at mem
    rcases mem_putEntry mem with new | old
    · exact .inl ⟨rfl, new⟩
    · exact .inr (entries_eq here ▸ old)
  · rw [if_neg same] at mem
    by_cases new : other = fs.nodes.size
    · rw [if_pos new] at mem
      cases blank <;> cases mem
    · rw [if_neg new] at mem
      exact .inr mem

theorem entries_setFile {content : ByteArray} (here : fs.node? id = some (.file content))
    (content' : ByteArray) (other : NodeId) :
    (fs.setNode id (.file content')).entries other = fs.entries other := by
  unfold FileSystem.entries
  rw [node?_setNode]
  by_cases same : id = other ∧ id < fs.nodes.size
  · rw [if_pos same, ← same.1, here]
  · rw [if_neg same]

theorem Changes.entries_subset (h : fs.Changes fs') (other : NodeId) :
    fs.entries other ⊆ fs'.entries other := by
  cases h with
  | @add lastLink slashed p segments directory name node gap blank =>
    obtain ⟨_, _, _, _, _, parent, entries, open_, _, missing⟩ := gap_of_follow gap
    have here := open_.node
    intro entry mem
    obtain ⟨above, there⟩ := node_of_mem_entries mem
    by_cases same : other = directory
    · subst same
      cases here.symm.trans there
      rw [entries_eq (node?_addNode here name node other ▸ if_pos rfl)]
      exact mem_putEntry_of_mem missing mem
    · have small := lt_size_of_node? there
      rw [FileSystem.entries, node?_addNode here, if_neg same, if_neg (Nat.ne_of_lt small)]
      exact mem
  | write here content' =>
    rw [entries_setFile here]
    exact List.Subset.refl _

end Entries

theorem lt_size_of_isDirectoryNode {fs : FileSystem} {id : NodeId} (h : fs.isDirectoryNode id) :
    id < fs.nodes.size := by
  unfold isDirectoryNode at h
  split at h
  · rename_i node
    exact lt_size_of_node? node
  · cases h

theorem Sound.bounded {fs : FileSystem} (sound : fs.Sound) : fs.Bounded where
  root := lt_size_of_isDirectoryNode sound.root
  home := lt_size_of_isDirectoryNode sound.home
  parents id parent entries node :=
    lt_size_of_isDirectoryNode (sound.parents id parent entries node)
  inside := sound.inside

theorem Bounded.enter {fs : FileSystem} {current id : NodeId} {name : Bytes}
    (bounded : fs.Bounded) (enters : fs.enter current name = .ok (some id)) :
    id < fs.nodes.size := by
  obtain ⟨parent, entries, open_, steps⟩ := steps_of_enter enters
  generalize found : some id = result at steps
  cases steps with
  | here =>
    cases found
    exact lt_size_of_node? open_.node
  | up =>
    cases found
    exact bounded.parents _ _ _ open_.node
  | name =>
    have mem := mem_of_lookup found.symm
    rw [← entries_eq open_.node] at mem
    exact bounded.inside _ _ mem

theorem Bounded.start {fs : FileSystem} (bounded : fs.Bounded) (p : Path) :
    fs.start p < fs.nodes.size := by
  unfold FileSystem.start
  split
  · exact bounded.root
  · exact bounded.home

theorem Bounded.leads {fs : FileSystem} {p q : Place} (bounded : fs.Bounded)
    (h : fs.Leads p q) (old : p.current < fs.nodes.size) : q.current < fs.nodes.size := by
  induction h with
  | refl => exact old
  | tail _ step ih =>
    cases step with
    | directory => exact ih
    | entry enters => exact bounded.enter enters
    | link =>
      dsimp only
      split
      · exact bounded.root
      · exact ih

theorem Bounded.tree {fs : FileSystem} (bounded : fs.Bounded) (once : fs.NoHardLinks)
    (ranked : ∃ depth : NodeId → Nat, ∀ id, ∀ entry ∈ fs.entries id, depth id < depth entry.2) :
    fs.Tree :=
  ⟨bounded.root, bounded.home, bounded.parents, bounded.inside, once, ranked⟩

theorem Tree.bounded {fs : FileSystem} (tree : fs.Tree) : fs.Bounded :=
  ⟨tree.root, tree.home, tree.parents, tree.inside⟩

theorem Sound.tree {fs : FileSystem} (sound : fs.Sound) (once : fs.NoHardLinks) : fs.Tree :=
  sound.bounded.tree once sound.ranked

section Keeping

variable {fs fs' : FileSystem} {directory parent : NodeId} {name : Bytes} {node : Node}
  {entries : List (Bytes × NodeId)}

theorem size_addNode (fs : FileSystem) (directory : NodeId) (name : Bytes) (node : Node) :
    (fs.addNode directory name node).2.nodes.size = fs.nodes.size + 1 := by
  unfold addNode
  split <;> simp [setNode]

theorem id_lt_of_mem_entries {id : NodeId} {entry : Bytes × NodeId} (h : entry ∈ fs.entries id) :
    id < fs.nodes.size := by
  obtain ⟨parent, node⟩ := node_of_mem_entries h
  exact lt_size_of_node? node

theorem bounded_addNode (bounded : fs.Bounded)
    (here : fs.node? directory = some (.directory parent entries)) (blank : Blank directory node) :
    (fs.addNode directory name node).2.Bounded := by
  have inside := lt_size_of_node? here
  have unmoved : (fs.addNode directory name node).2.root = fs.root ∧
      (fs.addNode directory name node).2.home = fs.home := by
    simp [addNode, here, setNode]
  constructor
  · rw [size_addNode, unmoved.1]
    exact Nat.lt_succ_of_lt bounded.root
  · rw [size_addNode, unmoved.2]
    exact Nat.lt_succ_of_lt bounded.home
  · intro id parent' entries' there
    rw [size_addNode]
    rw [node?_addNode here] at there
    by_cases same : id = directory
    · rw [if_pos same] at there
      cases there
      exact Nat.lt_succ_of_lt (bounded.parents directory parent entries here)
    · rw [if_neg same] at there
      by_cases new : id = fs.nodes.size
      · rw [if_pos new] at there
        cases blank with
        | file => cases there
        | directory =>
          cases there
          exact Nat.lt_succ_of_lt inside
      · rw [if_neg new] at there
        exact Nat.lt_succ_of_lt (bounded.parents id parent' entries' there)
  · intro id entry mem
    rw [size_addNode]
    rcases entries_addNode here blank mem with ⟨_, new⟩ | old
    · simp [new]
    · exact Nat.lt_succ_of_lt (bounded.inside id entry old)

theorem bounded_setFile {id : NodeId} {content : ByteArray} (bounded : fs.Bounded)
    (here : fs.node? id = some (.file content)) (content' : ByteArray) :
    (fs.setNode id (.file content')).Bounded := by
  have size : (fs.setNode id (.file content')).nodes.size = fs.nodes.size := by simp [setNode]
  constructor
  · exact size ▸ bounded.root
  · exact size ▸ bounded.home
  · intro other parent entries there
    rw [node?_setNode] at there
    split at there
    · cases there
    · exact size ▸ bounded.parents other parent entries there
  · intro other entry mem
    exact size ▸ bounded.inside other entry (entries_setFile here content' other ▸ mem)

theorem sharing_addNode (inside : ∀ id, ∀ entry ∈ fs.entries id, entry.2 < fs.nodes.size)
    (here : fs.node? directory = some (.directory parent entries)) (blank : Blank directory node)
    {id id' : NodeId} {entry entry' : Bytes × NodeId}
    (mem : entry ∈ (fs.addNode directory name node).2.entries id)
    (mem' : entry' ∈ (fs.addNode directory name node).2.entries id') (same : entry.2 = entry'.2) :
    id = id' ∧ entry = entry' ∨ entry ∈ fs.entries id ∧ entry' ∈ fs.entries id' := by
  rcases entries_addNode here blank mem with ⟨at_, new⟩ | old
  · rcases entries_addNode here blank mem' with ⟨at', new'⟩ | old'
    · exact .inl ⟨at_.trans at'.symm, new.trans new'.symm⟩
    · have small := inside id' entry' old'
      rw [← same, new] at small
      exact absurd small (Nat.lt_irrefl _)
  · rcases entries_addNode here blank mem' with ⟨_, new'⟩ | old'
    · have small := inside id entry old
      rw [same, new'] at small
      exact absurd small (Nat.lt_irrefl _)
    · exact .inr ⟨old, old'⟩

theorem ranked_addNode (inside : ∀ id, ∀ entry ∈ fs.entries id, entry.2 < fs.nodes.size)
    (here : fs.node? directory = some (.directory parent entries)) (blank : Blank directory node)
    (ranked : ∃ depth : NodeId → Nat, ∀ id, ∀ entry ∈ fs.entries id, depth id < depth entry.2) :
    ∃ depth : NodeId → Nat, ∀ id, ∀ entry ∈ (fs.addNode directory name node).2.entries id,
      depth id < depth entry.2 := by
  obtain ⟨depth, deeper⟩ := ranked
  refine ⟨fun id => if id = fs.nodes.size then depth directory + 1 else depth id, ?_⟩
  intro id entry mem
  dsimp only
  rcases entries_addNode here blank mem with ⟨at_, new⟩ | old
  · rw [at_, new, if_neg (Nat.ne_of_lt (lt_size_of_node? here)), if_pos rfl]
    exact Nat.lt_succ_self _
  · have small := inside id entry old
    have small' := id_lt_of_mem_entries old
    rw [if_neg (Nat.ne_of_lt small'), if_neg (Nat.ne_of_lt small)]
    exact deeper id entry old

theorem tree_addNode (tree : fs.Tree)
    (here : fs.node? directory = some (.directory parent entries)) (blank : Blank directory node) :
    (fs.addNode directory name node).2.Tree := by
  apply (bounded_addNode tree.bounded here blank).tree
  · intro id id' entry mem entry' mem' same
    rcases sharing_addNode tree.inside here blank mem mem' same with one | ⟨old, old'⟩
    · exact one
    · exact tree.once id id' entry old entry' old' same
  · exact ranked_addNode tree.inside here blank tree.ranked

theorem tree_setFile {id : NodeId} {content : ByteArray} (tree : fs.Tree)
    (here : fs.node? id = some (.file content)) (content' : ByteArray) :
    (fs.setNode id (.file content')).Tree := by
  have same := entries_setFile here content'
  apply (bounded_setFile tree.bounded here content').tree
  · intro other other' entry mem entry' mem'
    exact tree.once other other' entry (same other ▸ mem) entry' (same other' ▸ mem')
  · obtain ⟨depth, deeper⟩ := tree.ranked
    exact ⟨depth, fun other entry mem => deeper other entry (same other ▸ mem)⟩

theorem Changes.tree (h : fs.Changes fs') (tree : fs.Tree) : fs'.Tree := by
  cases h with
  | add gap blank =>
    obtain ⟨_, _, _, _, _, _, _, open_, _⟩ := gap_of_follow gap
    exact tree_addNode tree open_.node blank
  | write here content' => exact tree_setFile tree here content'

theorem Changes.bounded (h : fs.Changes fs') (bounded : fs.Bounded) : fs'.Bounded := by
  cases h with
  | add gap blank =>
    obtain ⟨_, _, _, _, _, _, _, open_, _⟩ := gap_of_follow gap
    exact bounded_addNode bounded open_.node blank
  | write here content' => exact bounded_setFile bounded here content'

theorem Changes.notDirectory (h : fs.Changes fs') {id : NodeId} (inside : id < fs.nodes.size)
    (plain : fs.isDirectoryNode id = false) :
    id < fs'.nodes.size ∧ fs'.isDirectoryNode id = false := by
  cases h with
  | @add _ _ _ _ directory name node gap blank =>
    obtain ⟨_, _, _, _, _, parent, entries, open_, _⟩ := gap_of_follow gap
    have differ : id ≠ directory := by
      rintro rfl
      simp [isDirectoryNode, open_.node] at plain
    rw [size_addNode, isDirectoryNode, node?_addNode open_.node, if_neg differ,
      if_neg (Nat.ne_of_lt inside)]
    exact ⟨Nat.lt_succ_of_lt inside, plain⟩
  | @write other content here content' =>
    refine ⟨by simpa [setNode] using inside, ?_⟩
    by_cases same : other = id
    · subst same
      rw [isDirectoryNode, node?_setNode, if_pos ⟨rfl, inside⟩]
    · rw [isDirectoryNode, node?_setNode, if_neg fun h => same h.1]
      exact plain

theorem descends_addNode (here : fs.node? directory = some (.directory parent entries))
    (blank : Blank directory node) {top id : NodeId} {names : List Bytes}
    (h : (fs.addNode directory name node).2.Descends top names id) :
    fs.Descends top names id ∨ id = fs.nodes.size := by
  induction h with
  | nil => exact .inl .nil
  | concat above entry ih =>
    rcases entries_addNode here blank entry with ⟨_, new⟩ | old
    · exact .inr (Prod.mk.inj new).2
    · rcases ih with before | new
      · exact .inl (.concat before old)
      · have small := id_lt_of_mem_entries old
        rw [new] at small
        exact absurd small (Nat.lt_irrefl _)

theorem holdsOnlyFiles_addNode (here : fs.node? directory = some (.directory parent entries))
    (blank : Blank directory node) (missing : entries.lookup name = none) {top : NodeId}
    (holds : fs.HoldsOnlyFiles top) : (fs.addNode directory name node).2.HoldsOnlyFiles top := by
  have grows := grows_addNode here missing blank.plain
  have inside := lt_size_of_node? here
  intro names id down entry mem
  rcases entries_addNode here blank mem with ⟨_, new⟩ | old
  · have there : (fs.addNode directory name node).2.node? entry.2 = some node := by
      rw [new, node?_addNode here, if_neg (Nat.ne_of_gt inside), if_pos rfl]
    cases blank with
    | file => exact .inr ⟨_, there⟩
    | directory => exact .inl (by rw [isDirectoryNode, there])
  · rcases descends_addNode here blank down with before | new
    · rcases holds names id before entry old with directory | ⟨content, file⟩
      · exact .inl (grows.isDirectoryNode directory)
      · exact .inr (grows.file file)
    · have small := id_lt_of_mem_entries old
      rw [new] at small
      exact absurd small (Nat.lt_irrefl _)

theorem Descends.mono {top id : NodeId} {names : List Bytes} (h : fs.Descends top names id)
    (kept : ∀ id, fs.entries id ⊆ fs'.entries id) : fs'.Descends top names id := by
  induction h with
  | nil => exact .nil
  | concat above entry ih => exact .concat ih (kept _ entry)

theorem Changes.holdsOnlyFiles (h : fs.Changes fs') {top : NodeId}
    (holds : fs.HoldsOnlyFiles top) : fs'.HoldsOnlyFiles top := by
  have grows := h.grows
  cases h with
  | add gap blank =>
    obtain ⟨_, _, _, _, _, _, _, open_, _, missing⟩ := gap_of_follow gap
    exact holdsOnlyFiles_addNode open_.node blank missing holds
  | write here content' =>
    have same := entries_setFile here content'
    intro names id down entry mem
    have before : fs.Descends top names id := down.mono fun id _ mem => same id ▸ mem
    rcases holds names id before entry (same id ▸ mem) with directory | ⟨content, file⟩
    · exact .inl (grows.isDirectoryNode directory)
    · exact .inr (grows.file file)

theorem Changes.linkFree (h : fs.Changes fs') {top : NodeId} (linkFree : fs.LinkFree top) :
    fs'.LinkFree top := by
  have grows := h.grows
  intro names id down entry mem target link
  have before : fs.node? entry.2 = some (.link target) := grows.link.mp link
  cases h with
  | add gap blank =>
    obtain ⟨_, _, _, _, _, parent, entries, open_, _⟩ := gap_of_follow gap
    rcases entries_addNode open_.node blank mem with ⟨_, new⟩ | old
    · rw [new] at before
      exact absurd (lt_size_of_node? before) (Nat.lt_irrefl _)
    · rcases descends_addNode open_.node blank down with above | new
      · exact linkFree names id above entry old target before
      · have small := id_lt_of_mem_entries old
        rw [new] at small
        exact absurd small (Nat.lt_irrefl _)
  | write here content' =>
    have same := entries_setFile here content'
    have above : fs.Descends top names id := down.mono fun id _ mem => same id ▸ mem
    exact linkFree names id above entry (same id ▸ mem) target before

end Keeping

section Unique

variable {fs : FileSystem} {top id : NodeId} {names names' : List Bytes}

theorem depth_le_of_descends {depth : NodeId → Nat}
    (deeper : ∀ id, ∀ entry ∈ fs.entries id, depth id < depth entry.2)
    (h : fs.Descends top names id) : depth top ≤ depth id := by
  induction h with
  | nil => exact Nat.le_refl _
  | concat above entry ih => exact Nat.le_of_lt (Nat.lt_of_le_of_lt ih (deeper _ _ entry))

theorem descends_once (once : fs.NamesOnce top)
    (ranked : ∃ depth : NodeId → Nat, ∀ id, ∀ entry ∈ fs.entries id, depth id < depth entry.2)
    (first : fs.Descends top names id) (second : fs.Descends top names' id) : names = names' := by
  obtain ⟨depth, deeper⟩ := ranked
  have not_below {names : List Bytes} {name : Bytes} {id : NodeId}
      (above : fs.Descends top names id) (entry : (name, top) ∈ fs.entries id) : False := by
    have down := depth_le_of_descends deeper above
    have up := deeper _ _ entry
    dsimp only at up
    omega
  induction first generalizing names' with
  | nil =>
    cases second with
    | nil => rfl
    | concat above entry => exact (not_below above entry).elim
  | concat above entry ih =>
    cases second with
    | nil => exact (not_below above entry).elim
    | concat above' entry' =>
      obtain ⟨rfl, same⟩ := once _ _ above _ entry _ _ entry' rfl
      rw [ih above', (Prod.mk.inj same).1]

theorem descends_unique (tree : fs.Tree) (first : fs.Descends top names id)
    (second : fs.Descends top names' id) : names = names' :=
  descends_once (tree.once.namesOnce top) tree.ranked first second

theorem entry_of_enter {middle : NodeId} {name : Bytes} (valid : Path.IsName name)
    (enters : fs.enter middle name = .ok (some id)) : (name, id) ∈ fs.entries middle := by
  obtain ⟨parent, entries, open_, steps⟩ := steps_of_enter enters
  generalize found : some id = result at steps
  cases steps with
  | here => exact absurd rfl valid.notHere
  | up => exact absurd rfl valid.notUp
  | name => exact entries_eq open_.node ▸ mem_of_lookup found.symm

theorem entry_of_leads {middle : NodeId} {name : Bytes} (linkFree : fs.LinkFree top)
    (above : fs.Descends top names middle) (valid : Path.IsName name) {left left' : Nat}
    (h : fs.Leads ⟨left, middle, [.name name]⟩ ⟨left', id, []⟩) :
    (name, id) ∈ fs.entries middle ∧ fs.enter middle name = .ok (some id) ∧
      ∀ target, fs.node? id ≠ some (.link target) := by
  rcases Relation.ReflTransGen.cases_head h with same | ⟨next, step, rest⟩
  · cases same
  · cases step with
    | entry enters plain =>
      cases leads_of_end rest
      exact ⟨entry_of_enter valid enters, enters, plain⟩
    | link enters link => exact absurd link (linkFree _ _ above _ (entry_of_enter valid enters) _)

theorem along_of_leads (linkFree : fs.LinkFree top) (valid : ∀ name ∈ names, Path.IsName name)
    {left : Nat} {q : Place} (h : fs.Leads ⟨left, top, names.map .name⟩ q) :
    ∃ early rest, names = early ++ rest ∧ q.segments = rest.map .name ∧
      fs.Descends top early q.current := by
  induction h with
  | refl => exact ⟨[], names, rfl, rfl, .nil⟩
  | tail _ step ih =>
    obtain ⟨early, rest, whole, segments, above⟩ := ih
    cases rest with
    | nil => cases step <;> cases segments
    | cons name rest =>
      have here : Path.IsName name := valid name (by simp [whole])
      cases step with
      | directory => cases segments
      | entry enters =>
        cases segments
        refine ⟨early ++ [name], rest, by simp [whole], rfl, ?_⟩
        exact .concat above (entry_of_enter here enters)
      | link enters link =>
        cases segments
        exact absurd link (linkFree _ _ above _ (entry_of_enter here enters) _)

theorem descends_of_leads (linkFree : fs.LinkFree top)
    (valid : ∀ name ∈ names, Path.IsName name) {left left' : Nat}
    (h : fs.Leads ⟨left, top, names.map .name⟩ ⟨left', id, []⟩) : fs.Descends top names id := by
  obtain ⟨early, rest, whole, none, above⟩ := along_of_leads linkFree valid h
  rw [List.map_eq_nil_iff.mp none.symm, List.append_nil] at whole
  exact whole ▸ above

theorem top_of_descends (h : fs.Descends top [] id) : id = top := by
  generalize none : [] = names at h
  cases h with
  | nil => rfl
  | concat => simp at none

theorem names_of_empty (empty : fs.entries top = []) (h : fs.Descends top names id) :
    names = [] := by
  induction h with
  | nil => rfl
  | concat above entry ih =>
    rw [ih] at above
    rw [top_of_descends above, empty] at entry
    cases entry

end Unique

end ModuleTree.FileSystem
