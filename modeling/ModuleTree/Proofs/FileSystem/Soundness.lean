import ModuleTree.Proofs.FileSystem.Tree
/- What calls do to a sound file system leaves it sound. New entries have names that can be looked
   up, no name comes twice, and what is new stands below a directory that was there. -/
namespace ModuleTree.FileSystem

variable {fs fs' : FileSystem} {p : Path} {id : NodeId}

def Piece (name : Bytes) : Prop := name ≠ [] ∧ Path.slash ∉ name

def Pieces (segments : List Segment) : Prop := ∀ name, .name name ∈ segments → Piece name

theorem pieces_of_segmentNames (p : Path) : Pieces (p.segmentNames.map .name) := by
  intro name mem
  obtain ⟨_, there, same⟩ := List.mem_map.mp mem
  cases same
  exact Path.mem_segmentNames there

theorem pieces_of_segments (p : Path) : Pieces p.segments := by
  intro name mem
  rw [segments_eq] at mem
  rcases List.mem_append.mp mem with early | last
  · exact pieces_of_segmentNames p name early
  · split at last
    · cases List.mem_singleton.mp last
    · cases last

theorem pieces_of_leads {q r : Place} (h : fs.Leads q r) (pieces : Pieces q.segments) :
    Pieces r.segments := by
  induction h with
  | refl => exact pieces
  | tail _ step ih =>
    cases step with
    | directory | entry => exact fun name mem => ih name (List.mem_cons_of_mem _ mem)
    | link =>
      intro name mem
      rcases List.mem_append.mp mem with inside | rest
      · exact pieces_of_segments _ name inside
      · exact ih name (List.mem_cons_of_mem _ rest)

theorem isName_of_gap {lastLink slashed : Bool} {budget : Nat} {current directory : NodeId}
    {segments : List Segment} {name : Bytes} (pieces : Pieces segments)
    (gap : fs.follow lastLink budget current segments = .ok (.gap directory name slashed)) :
    Path.IsName name := by
  obtain ⟨left, rest, leads, _, _, _, _, _, proper, _⟩ := gap_of_follow gap
  obtain ⟨nonempty, slashFree⟩ := pieces_of_leads leads pieces name List.mem_cons_self
  exact ⟨nonempty, slashFree, proper.notHere, proper.notUp⟩

section Names

variable {name : Bytes} {entries : List (Bytes × NodeId)}

theorem nodup_putEntry (missing : entries.lookup name = none)
    (distinct : (entries.map Prod.fst).Nodup) :
    ((putEntry name id entries).map Prod.fst).Nodup := by
  refine (((perm_putEntry missing).map Prod.fst).nodup_iff).mpr (List.nodup_cons.mpr ⟨?_, distinct⟩)
  intro there
  obtain ⟨⟨_, child⟩, mem, same⟩ := List.mem_map.mp there
  cases same
  cases missing.symm.trans (lookup_of_mem mem distinct)

end Names

section Keeping

variable {directory parent : NodeId} {name : Bytes} {node : Node} {entries : List (Bytes × NodeId)}

theorem sound_addNode (sound : fs.Sound)
    (here : fs.node? directory = some (.directory parent entries))
    (missing : entries.lookup name = none) (valid : Path.IsName name)
    (blank : Blank directory node) : (fs.addNode directory name node).2.Sound := by
  have grows := grows_addNode here missing blank.plain
  refine ⟨(bounded_addNode sound.bounded here blank).inside, ?_, ?_, ?_, ?_, ?_,
    ranked_addNode sound.inside here blank sound.ranked⟩
  · intro other entry mem
    rcases entries_addNode here blank mem with ⟨_, new⟩ | old
    · exact new ▸ valid
    · exact sound.named other entry old
  · intro other
    unfold FileSystem.entries
    rw [node?_addNode here]
    by_cases same : other = directory
    · rw [if_pos same]
      exact nodup_putEntry missing (entries_eq here ▸ sound.distinct directory)
    · rw [if_neg same]
      by_cases new : other = fs.nodes.size
      · rw [if_pos new]
        cases blank <;> exact List.nodup_nil
      · rw [if_neg new]
        exact sound.distinct other
  · intro other above entries' there
    apply grows.isDirectoryNode
    rw [node?_addNode here] at there
    by_cases same : other = directory
    · rw [if_pos same] at there
      cases there
      exact sound.parents directory parent entries here
    · rw [if_neg same] at there
      by_cases new : other = fs.nodes.size
      · rw [if_pos new] at there
        cases blank with
        | file => cases there
        | directory =>
          cases there
          simp [isDirectoryNode, here]
      · rw [if_neg new] at there
        exact sound.parents other above entries' there
  · exact grows.root ▸ grows.isDirectoryNode sound.root
  · exact grows.home ▸ grows.isDirectoryNode sound.home

theorem sound_setFile {content : ByteArray} (sound : fs.Sound)
    (here : fs.node? id = some (.file content)) (content' : ByteArray) :
    (fs.setNode id (.file content')).Sound := by
  have same := entries_setFile here content'
  have grows := grows_setFile here content'
  refine ⟨(bounded_setFile sound.bounded here content').inside, ?_, ?_, ?_,
    grows.isDirectoryNode sound.root, grows.isDirectoryNode sound.home, ?_⟩
  · exact fun other entry mem => sound.named other entry (same other ▸ mem)
  · exact fun other => same other ▸ sound.distinct other
  · intro other parent entries there
    apply grows.isDirectoryNode
    rw [node?_setNode] at there
    split at there
    · cases there
    · exact sound.parents other parent entries there
  · obtain ⟨depth, deeper⟩ := sound.ranked
    exact ⟨depth, fun other entry mem => deeper other entry (same other ▸ mem)⟩

theorem sound_of_gap {lastLink slashed : Bool} (sound : fs.Sound)
    (gap : fs.follow lastLink linkLimit (fs.start p) (p.segmentNames.map .name) =
      .ok (.gap directory name slashed)) (blank : Blank directory node) :
    (fs.addNode directory name node).2.Sound := by
  obtain ⟨_, _, _, _, _, parent, entries, open_, _, missing⟩ := gap_of_follow gap
  exact sound_addNode sound open_.node missing (isName_of_gap (pieces_of_segmentNames p) gap) blank

theorem sound_makeDirectory (sound : fs.Sound) (h : fs.makeDirectory p = .ok fs') : fs'.Sound := by
  obtain ⟨directory, name, slashed, gap, same⟩ := makeDirectory_ok h
  exact same ▸ sound_of_gap sound gap .directory

theorem sound_createFile (sound : fs.Sound) (h : fs.createFile p = .ok (id, fs')) : fs'.Sound := by
  obtain ⟨_, _, ⟨directory, name, gap, same⟩ | ⟨_, ⟨content, here, same⟩ | ⟨same, _⟩⟩⟩ :=
    createFile_ok h
  · have added : (fs.addNode directory name (.file .empty)).2.Sound := sound_of_gap sound gap .file
    rwa [← same] at added
  · exact same ▸ sound_setFile sound here .empty
  · exact same ▸ sound

theorem sound_writeNode (sound : fs.Sound) (id : NodeId) (bytes : ByteArray) :
    (fs.writeNode id bytes).Sound := by
  rcases writeNode_cases fs id bytes with ⟨content, here, same⟩ | ⟨_, same⟩
  · rw [same]
    exact sound_setFile sound here _
  · rw [same]
    exact sound

end Keeping

section Locks

def LocksThere (fs : FileSystem) : Prop := ∀ id ∈ fs.locked, id < fs.nodes.size

theorem Changes.locksThere (h : fs.Changes fs') (locks : fs.LocksThere) : fs'.LocksThere := by
  intro id mem
  have inside := locks id (h.grows.locked ▸ mem)
  cases h with
  | add =>
    rw [size_addNode]
    exact Nat.lt_succ_of_lt inside
  | write => simpa [setNode] using inside

theorem LocksThere.unlocked (locks : fs.LocksThere) (grows : fs.Grows fs')
    (new : fs.node? id = none) : fs'.isLocked id = false := by
  rw [grows.isLocked, ← Bool.not_eq_true]
  intro locked
  have old := locks id (by simpa [isLocked] using locked)
  simp [node?, old] at new

end Locks

end ModuleTree.FileSystem
