import ModuleTree.Proofs.FileSystem.Destination
/- What may change when files are put below a destination. New nodes are directories on the way
   to the destination or below it, or files at their places; an old node stays what it is, but
   for new names in a directory and new content in a file at its place. -/
namespace ModuleTree.FileSystem

section Terms

variable (fs : FileSystem) (destination : Path) (sites : Path → Prop) (id : NodeId)

def SiteFile : Prop :=
  ∃ site names, sites site ∧ names ≠ [] ∧ site.segmentNames = destination.segmentNames ++ names ∧
    fs.At destination names id ∧ ∃ content, fs.node? id = some (.file content)

/-- What a new node is: a directory of the path of the destination, one between the destination
and a place, or a file at its place. -/
inductive Added : Prop where
  | way {p : Path} (way : p.OnTheWay destination) (leads : fs.LeadsTo p p.segmentNames id)
      (directory : fs.isDirectoryNode id)
  | between {site : Path} {names more : List Bytes} (wanted : sites site) (some : names ≠ [])
      (further : more ≠ [])
      (above : site.segmentNames = destination.segmentNames ++ (names ++ more))
      (here : fs.At destination names id) (directory : fs.isDirectoryNode id)
  | file (file : fs.SiteFile destination sites id)

/-- What becomes of an old node, when the nodes from `first` on are new. -/
inductive Becomes (first : Nat) : Node → Node → Prop where
  | same (node : Node) : Becomes first node node
  | written (content content' : ByteArray) (file : fs.SiteFile destination sites id) :
      Becomes first (.file content) (.file content')
  | grown {parent : NodeId} {entries entries' : List (Bytes × NodeId)}
      (kept : entries ⊆ entries') (more : ∃ entry ∈ entries', first ≤ entry.2) :
      Becomes first (.directory parent entries) (.directory parent entries')

end Terms

/-- Nothing is lost, and nothing is new or different but what is put at these places, and the
directories it takes. -/
structure Framed (fs fs' : FileSystem) (destination : Path) (sites : Path → Prop) : Prop where
  grows : fs.Grows fs'
  size : fs.nodes.size ≤ fs'.nodes.size
  kept : ∀ id node, fs.node? id = some node →
    ∃ node', fs'.node? id = some node' ∧ fs'.Becomes destination sites id fs.nodes.size node node'
  added : ∀ id, ∀ entry ∈ fs'.entries id, entry ∉ fs.entries id →
    fs.nodes.size ≤ entry.2 ∧ fs'.Added destination sites entry.2

section Later

variable {fs fs' fs'' : FileSystem} {destination : Path} {sites sites' : Path → Prop} {id : NodeId}

theorem At.later {names : List Bytes} (h : fs.At destination names id) (grows : fs.Grows fs')
    (kept : ∀ id, fs.entries id ⊆ fs'.entries id) : fs'.At destination names id := by
  obtain ⟨top, there, down⟩ := h
  exact ⟨top, grows.leadsTo there, down.mono kept⟩

theorem SiteFile.later (h : fs.SiteFile destination sites id) (grows : fs.Grows fs')
    (kept : ∀ id, fs.entries id ⊆ fs'.entries id) (more : ∀ site, sites site → sites' site) :
    fs'.SiteFile destination sites' id := by
  obtain ⟨site, names, wanted, some, whole, here, content, file⟩ := h
  exact ⟨site, names, more site wanted, some, whole, here.later grows kept, grows.file file⟩

theorem Added.later (h : fs.Added destination sites id) (grows : fs.Grows fs')
    (kept : ∀ id, fs.entries id ⊆ fs'.entries id) (more : ∀ site, sites site → sites' site) :
    fs'.Added destination sites' id := by
  cases h with
  | way way leads directory =>
    exact .way way (grows.leadsTo leads) (grows.isDirectoryNode directory)
  | between wanted some further above here directory =>
    exact .between (more _ wanted) some further above (here.later grows kept)
      (grows.isDirectoryNode directory)
  | file file => exact .file (file.later grows kept more)

theorem Becomes.later {first : Nat} {node node' : Node}
    (h : fs.Becomes destination sites id first node node') (grows : fs.Grows fs')
    (kept : ∀ id, fs.entries id ⊆ fs'.entries id) (more : ∀ site, sites site → sites' site) :
    fs'.Becomes destination sites' id first node node' := by
  cases h with
  | same => exact .same node
  | written content content' file => exact .written content content' (file.later grows kept more)
  | grown stay new => exact .grown stay new

theorem Becomes.trans {first second : Nat} {node node' node'' : Node} (le : first ≤ second)
    (h : fs.Becomes destination sites id first node node')
    (next : fs.Becomes destination sites id second node' node'') :
    fs.Becomes destination sites id first node node'' := by
  cases next with
  | same => exact h
  | written content content' file =>
    cases h with
    | same => exact .written content content' file
    | written before _ _ => exact .written before content' file
  | grown kept more =>
    obtain ⟨entry, mem, late⟩ := more
    have new := Nat.le_trans le late
    cases h with
    | same => exact .grown kept ⟨entry, mem, new⟩
    | grown stay _ => exact .grown (List.Subset.trans stay kept) ⟨entry, mem, new⟩

theorem framed_refl (fs : FileSystem) (destination : Path) (sites : Path → Prop) :
    fs.Framed fs destination sites where
  grows := grows_refl fs
  size := Nat.le_refl _
  kept _ node there := ⟨node, there, .same node⟩
  added _ _ mem new := absurd mem new

theorem Framed.entries_subset (h : fs.Framed fs' destination sites) (id : NodeId) :
    fs.entries id ⊆ fs'.entries id := by
  intro entry mem
  obtain ⟨parent, there⟩ := node_of_mem_entries mem
  obtain ⟨node', there', becomes⟩ := h.kept id _ there
  cases becomes with
  | same => exact entries_eq there' ▸ mem
  | grown kept => exact entries_eq there' ▸ kept mem

theorem Framed.mono (h : fs.Framed fs' destination sites)
    (more : ∀ site, sites site → sites' site) : fs.Framed fs' destination sites' where
  grows := h.grows
  size := h.size
  kept id node there := by
    obtain ⟨node', there', becomes⟩ := h.kept id node there
    exact ⟨node', there', becomes.later (grows_refl fs') (fun _ => List.Subset.refl _) more⟩
  added id entry mem new := by
    obtain ⟨late, added⟩ := h.added id entry mem new
    exact ⟨late, added.later (grows_refl fs') (fun _ => List.Subset.refl _) more⟩

theorem Framed.trans (first : fs.Framed fs' destination sites)
    (second : fs'.Framed fs'' destination sites) : fs.Framed fs'' destination sites where
  grows := first.grows.trans second.grows
  size := Nat.le_trans first.size second.size
  kept id node there := by
    obtain ⟨node', there', becomes⟩ := first.kept id node there
    obtain ⟨node'', there'', further⟩ := second.kept id node' there'
    have later := becomes.later second.grows second.entries_subset fun _ wanted => wanted
    exact ⟨node'', there'', later.trans first.size further⟩
  added id entry mem new := by
    by_cases before : entry ∈ fs'.entries id
    · obtain ⟨late, added⟩ := first.added id entry before new
      exact ⟨late, added.later second.grows second.entries_subset fun _ wanted => wanted⟩
    · obtain ⟨late, added⟩ := second.added id entry mem before
      exact ⟨Nat.le_trans first.size late, added⟩

end Later

section Puts

variable {fs fs' : FileSystem} {destination p : Path} {sites : Path → Prop} {id : NodeId}
  {directory parent : NodeId} {name : Bytes} {node : Node} {entries : List (Bytes × NodeId)}

theorem framed_addNode (here : fs.node? directory = some (.directory parent entries))
    (missing : entries.lookup name = none) (blank : Blank directory node)
    (added : (fs.addNode directory name node).2.Added destination sites fs.nodes.size) :
    fs.Framed (fs.addNode directory name node).2 destination sites where
  grows := grows_addNode here missing blank.plain
  size := by
    rw [size_addNode]
    exact Nat.le_succ _
  kept id old there := by
    by_cases same : id = directory
    · subst same
      cases here.symm.trans there
      have new : (name, fs.nodes.size) ∈ putEntry name fs.nodes.size entries := by
        apply mem_of_lookup
        rw [lookup_putEntry, if_pos rfl]
      refine ⟨_, by rw [node?_addNode here, if_pos rfl], .grown ?_ ⟨_, new, Nat.le_refl _⟩⟩
      intro entry mem
      exact mem_putEntry_of_mem missing mem
    · have small := lt_size_of_node? there
      refine ⟨old, ?_, .same old⟩
      rw [node?_addNode here, if_neg same, if_neg (Nat.ne_of_lt small), there]
  added id entry mem new := by
    rcases entries_addNode here blank mem with ⟨_, same⟩ | before
    · rw [same]
      exact ⟨Nat.le_refl _, added⟩
    · exact absurd before new

theorem framed_setFile {content : ByteArray} (here : fs.node? id = some (.file content))
    (content' : ByteArray)
    (file : (fs.setNode id (.file content')).SiteFile destination sites id) :
    fs.Framed (fs.setNode id (.file content')) destination sites where
  grows := grows_setFile here content'
  size := by simp [setNode]
  kept other old there := by
    by_cases same : id = other
    · subst same
      cases here.symm.trans there
      refine ⟨.file content', ?_, .written content content' file⟩
      rw [node?_setNode, if_pos ⟨rfl, lt_size_of_node? here⟩]
    · refine ⟨old, ?_, .same old⟩
      rw [node?_setNode, if_neg fun h => same h.1, there]
  added other entry mem new := by
    rw [entries_setFile here] at mem
    exact absurd mem new

theorem leadsTo_of_makeDirectory (h : fs.makeDirectory p = .ok fs') :
    fs'.LeadsTo p p.segmentNames fs.nodes.size ∧ fs'.isDirectoryNode fs.nodes.size := by
  have grows := (makeDirectory_changes h).grows
  obtain ⟨directory, name, slashed, gap, same⟩ := makeDirectory_ok h
  subst same
  constructor
  · obtain ⟨left, leads⟩ := leads_addNode gap .directory fun _ => ⟨_, _, rfl⟩
    unfold LeadsTo
    rw [grows.start]
    exact ⟨left, leads⟩
  · obtain ⟨_, _, _, _, _, parent, entries, open_, _⟩ := gap_of_follow gap
    have inside := lt_size_of_node? open_.node
    rw [isDirectoryNode, node?_addNode open_.node, if_neg (Nat.ne_of_gt inside), if_pos rfl]

theorem resolve_of_makeDirectory (h : fs.makeDirectory p = .ok fs') :
    fs'.resolve p = .ok fs.nodes.size := by
  obtain ⟨leads, directory⟩ := leadsTo_of_makeDirectory h
  refine resolve_iff.mpr ⟨?_, leads, fun _ => directory⟩
  cases refused : refuse? p with
  | none => rfl
  | some e => simp [makeDirectory, addEntry, spot, refused] at h

theorem framed_makeDirectory (h : fs.makeDirectory p = .ok fs')
    (added : fs'.Added destination sites fs.nodes.size) : fs.Framed fs' destination sites := by
  obtain ⟨directory, name, slashed, gap, same⟩ := makeDirectory_ok h
  obtain ⟨_, _, _, _, _, parent, entries, open_, _, missing⟩ := gap_of_follow gap
  subst same
  exact framed_addNode open_.node missing .directory added

theorem framed_createFile (h : fs.createFile p = .ok (id, fs'))
    (file : (∃ content, fs'.node? id = some (.file content)) →
      fs'.SiteFile destination sites id) : fs.Framed fs' destination sites := by
  obtain ⟨_, _, ⟨directory, name, gap, same⟩ | ⟨_, ⟨content, here, same⟩ | ⟨same, _⟩⟩⟩ :=
    createFile_ok h
  · obtain ⟨_, _, _, _, _, parent, entries, open_, _, missing⟩ := gap_of_follow gap
    have inside := lt_size_of_node? open_.node
    have at_ : id = fs.nodes.size := by
      rw [← addNode_id fs directory name (.file .empty), ← same]
    have after : fs' = (fs.addNode directory name (.file .empty)).2 := by rw [← same]
    subst at_ after
    refine framed_addNode open_.node missing .file (.file (file ⟨.empty, ?_⟩))
    rw [node?_addNode open_.node, if_neg (Nat.ne_of_gt inside), if_pos rfl]
  · subst same
    refine framed_setFile here .empty (file ⟨.empty, ?_⟩)
    rw [node?_setNode, if_pos ⟨rfl, lt_size_of_node? here⟩]
  · exact same ▸ framed_refl fs destination sites

theorem siteFile_of_leadsTo {site : Path} (linkFree : fs.Awaits destination LinkFree)
    (lies : destination.Lies site) (wanted : sites site)
    (leads : fs.LeadsTo site site.segmentNames id)
    (file : ∃ content, fs.node? id = some (.file content)) :
    fs.SiteFile destination sites id := by
  obtain ⟨names, some, _, whole⟩ := lies.names
  exact ⟨site, names, wanted, some, whole, at_of_lies (linkFree fs .refl) lies leads whole, file⟩

theorem lies_between {site : Path} {names more : List Bytes} (lies : destination.Lies site)
    (absolute : p.isAbsolute = destination.isAbsolute) (some : names ≠ [])
    (below : p.segmentNames = destination.segmentNames ++ names)
    (above : site.segmentNames = p.segmentNames ++ more) : destination.Lies p := by
  obtain ⟨all, _, valid, whole⟩ := lies.names
  rw [above, below, List.append_assoc, List.append_cancel_left_eq] at whole
  exact ⟨absolute, names, some, fun name mem => valid name (by simp [← whole, mem]), below⟩

theorem framed_of_puts (linkFree : fs.Awaits destination LinkFree)
    (lies : ∀ site, sites site → destination.Lies site) (h : fs.Puts destination sites fs') :
    fs.Framed fs' destination sites := by
  have later := linkFree.linkFree_puts lies h
  cases h with
  | still => exact framed_refl fs destination sites
  | way paves =>
    obtain ⟨p, way, made⟩ := paves
    obtain ⟨leads, directory⟩ := leadsTo_of_makeDirectory made
    exact framed_makeDirectory made (.way way leads directory)
  | between wanted absolute some further below above made =>
    obtain ⟨leads, directory⟩ := leadsTo_of_makeDirectory made
    have lies_ := lies_between (lies _ wanted) absolute some below above
    have here := at_of_lies (later _ .refl) lies_ leads below
    rw [below, List.append_assoc] at above
    exact framed_makeDirectory made (.between wanted some further above here directory)
  | file wanted created =>
    exact framed_createFile created
      (siteFile_of_leadsTo later (lies _ wanted) wanted (leadsTo_of_createFile created))
  | @content site id before wanted there here after =>
    have changes : fs.Changes (fs.setNode id (.file after)) := .write here after
    have file := siteFile_of_leadsTo linkFree (lies _ wanted) wanted (leadsTo_of_resolve there)
      ⟨before, here⟩
    exact framed_setFile here after
      (file.later changes.grows changes.entries_subset fun _ wanted => wanted)

end Puts

end ModuleTree.FileSystem
