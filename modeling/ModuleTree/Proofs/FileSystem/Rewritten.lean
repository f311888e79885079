import ModuleTree.Proofs.FileSystem.Tree
/- File systems that differ in what is in their files and in nothing else. Whatever is there is
   found again, and creating a file that is there only empties it. -/
namespace ModuleTree.FileSystem

structure Rewritten (fs fs' : FileSystem) : Prop where
  root : fs'.root = fs.root
  home : fs'.home = fs.home
  locked : fs'.locked = fs.locked
  size : fs'.nodes.size = fs.nodes.size
  nodes : ∀ id, fs'.node? id = fs.node? id ∨
    ∃ content content', fs.node? id = some (.file content) ∧ fs'.node? id = some (.file content')

structure Creatable (fs : FileSystem) (p : Path) (id : NodeId) : Prop where
  there : fs.resolve p = .ok id
  slashless : p.endsInSlash = false
  plain : fs.isDirectoryNode id = false
  unlocked : fs.isLocked id = false

section Rewritten

variable {fs fs' fs'' : FileSystem} {p : Path} {id : NodeId}

theorem rewritten_refl (fs : FileSystem) : fs.Rewritten fs :=
  ⟨rfl, rfl, rfl, rfl, fun _ => .inl rfl⟩

theorem Rewritten.trans (first : fs.Rewritten fs') (second : fs'.Rewritten fs'') :
    fs.Rewritten fs'' where
  root := second.root.trans first.root
  home := second.home.trans first.home
  locked := second.locked.trans first.locked
  size := second.size.trans first.size
  nodes id := by
    rcases first.nodes id with same | ⟨content, content', before, after⟩
    · exact same ▸ second.nodes id
    · rcases second.nodes id with same | ⟨_, content'', _, after'⟩
      · exact .inr ⟨content, content', before, same ▸ after⟩
      · exact .inr ⟨content, content'', before, after'⟩

theorem rewritten_setFile {content : ByteArray} (here : fs.node? id = some (.file content))
    (content' : ByteArray) : fs.Rewritten (fs.setNode id (.file content')) := by
  refine ⟨rfl, rfl, rfl, by simp [setNode], fun other => ?_⟩
  rw [node?_setNode]
  split
  · rename_i same
    exact .inr ⟨content, content', same.1 ▸ here, rfl⟩
  · exact .inl rfl

theorem rewritten_writeNode (fs : FileSystem) (id : NodeId) (bytes : ByteArray) :
    fs.Rewritten (fs.writeNode id bytes) := by
  rcases writeNode_cases fs id bytes with ⟨content, here, same⟩ | ⟨_, same⟩
  · rw [same]
    exact rewritten_setFile here _
  · rw [same]
    exact rewritten_refl fs

theorem Rewritten.grows (h : fs.Rewritten fs') : fs.Grows fs' where
  root := h.root
  home := h.home
  locked := h.locked
  file {id content} there := by
    rcases h.nodes id with same | ⟨_, content', _, after⟩
    · exact ⟨content, same ▸ there⟩
    · exact ⟨content', after⟩
  directory {id parent entries} there := by
    rcases h.nodes id with same | ⟨content, _, before, _⟩
    · exact ⟨entries, same ▸ there, fun found => found⟩
    · cases there.symm.trans before
  link {id target} := by
    rcases h.nodes id with same | ⟨content, content', before, after⟩
    · rw [same]
    · simp [before, after]

theorem Rewritten.isDirectoryNode (h : fs.Rewritten fs') (id : NodeId) :
    fs'.isDirectoryNode id = fs.isDirectoryNode id := by
  unfold FileSystem.isDirectoryNode
  rcases h.nodes id with same | ⟨content, content', before, after⟩
  · rw [same]
  · rw [before, after]

theorem Rewritten.eq (h : fs.Rewritten fs') (contents : ∀ id content content',
    fs.node? id = some (.file content) → fs'.node? id = some (.file content') →
      content' = content) : fs' = fs := by
  have nodes : fs'.nodes = fs.nodes := by
    apply Array.ext_getElem?
    intro id
    change fs'.node? id = fs.node? id
    rcases h.nodes id with same | ⟨content, content', before, after⟩
    · exact same
    · rw [before, after, contents id content content' before after]
  obtain ⟨nodes', root', home', locked'⟩ := fs'
  obtain ⟨_, _, _, _⟩ := fs
  obtain ⟨root, home, locked, _, _⟩ := h
  dsimp only at nodes root home locked
  rw [nodes, root, home, locked]

theorem Rewritten.creatable (h : fs.Rewritten fs') (creatable : fs.Creatable p id) :
    fs'.Creatable p id where
  there := h.grows.resolve creatable.there
  slashless := creatable.slashless
  plain := (h.isDirectoryNode id).trans creatable.plain
  unlocked := (h.grows.isLocked id).trans creatable.unlocked

theorem createFile_again (creatable : fs.Creatable p id) :
    ∃ fs', fs.createFile p = .ok (id, fs') ∧ fs.Rewritten fs' := by
  have spot : fs.spot true p p.segments = .ok (.node id) := by
    have found := creatable.there
    unfold resolve resolveWith at found
    split at found
    · cases found
    · rename_i same
      cases found
      exact same
    · cases found
  unfold createFile
  simp only [creatable.slashless, Bool.false_eq_true, if_false, spot, truncate, creatable.unlocked]
  cases node : fs.node? id with
  | none => exact ⟨fs, rfl, rewritten_refl fs⟩
  | some found =>
    cases found with
    | file content => exact ⟨_, rfl, rewritten_setFile node .empty⟩
    | directory parent entries => simpa [FileSystem.isDirectoryNode, node] using creatable.plain
    | link | special => exact ⟨fs, rfl, rewritten_refl fs⟩

theorem unlocked_of_createFile (h : fs.createFile p = .ok (id, fs')) :
    fs.isLocked id = false ∨ id = fs.nodes.size := by
  unfold createFile at h
  split at h
  · split at h <;> cases h
  · split at h
    · cases h
    · rename_i other _
      left
      unfold truncate at h
      cases locked : fs.isLocked other with
      | false =>
        rw [locked] at h
        split at h <;> cases h <;> exact locked
      | true =>
        rw [locked] at h
        split at h <;> cases h
    · cases h
    · rename_i directory name _
      right
      rw [← addNode_id fs directory name (.file .empty), Except.ok.inj h]

end Rewritten

section Above

variable {fs : FileSystem} {p above : Path} {id : NodeId}

theorem isAbsolute_of_front (written : above.bytes <+: p.bytes) (nonempty : above.isEmpty = false) :
    above.isAbsolute = p.isAbsolute := by
  obtain ⟨more, whole⟩ := written
  unfold Path.isAbsolute
  rw [← whole]
  cases bytes : above.bytes with
  | nil => simp [Path.isEmpty, bytes] at nonempty
  | cons => rfl

theorem refuse?_of_front (written : above.bytes <+: p.bytes) (nonempty : above.isEmpty = false)
    (named : refuse? p = none) : refuse? above = none := by
  have shorter := written.length_le
  unfold refuse? at named ⊢
  split at named
  · cases named
  · rename_i clean
    rw [if_neg fun dirty => clean ?_, if_neg (by simp [nonempty])]
    · split at named
      · cases named
      · split at named
        · cases named
        · rename_i short
          rw [if_neg (by omega)]
    · rw [List.contains_iff_mem] at dirty ⊢
      exact written.subset dirty

theorem isDirectoryNode_of_leads {left left' : Nat} {middle : NodeId} {names : List Bytes}
    (some : names ≠ []) (h : fs.Leads ⟨left, middle, names.map .name⟩ ⟨left', id, []⟩) :
    fs.isDirectoryNode middle := by
  obtain ⟨name, rest, whole⟩ := List.exists_cons_of_ne_nil some
  subst whole
  rcases Relation.ReflTransGen.cases_head h with same | ⟨_, step, _⟩
  · cases same
  · have enters : ∃ next, fs.enter middle name = .ok (.some next) := by
      cases step with
      | entry enters | link enters => exact ⟨_, enters⟩
    obtain ⟨next, enters⟩ := enters
    obtain ⟨parent, entries, open_, _⟩ := steps_of_enter enters
    simp [isDirectoryNode, open_.node]

theorem isDirectory_above (written : above.bytes <+: p.bytes) (nonempty : above.isEmpty = false)
    (names : ∃ more, more ≠ [] ∧ p.segmentNames = above.segmentNames ++ more)
    (h : fs.resolve p = .ok id) : fs.isDirectory above = true := by
  obtain ⟨named, leads, _⟩ := resolve_iff.mp h
  obtain ⟨more, further, whole⟩ := names
  rw [whole] at leads
  obtain ⟨left, left', middle, front, rest⟩ := leadsTo_append.mp leads
  have directory := isDirectoryNode_of_leads further rest
  refine isDirectory_iff.mpr ⟨middle, resolve_iff.mpr ⟨refuse?_of_front written nonempty named,
    ⟨left, ?_⟩, fun _ => directory⟩, directory⟩
  rwa [start, isAbsolute_of_front written nonempty]

theorem pathExists_above (written : above.bytes <+: p.bytes) (nonempty : above.isEmpty = false)
    (names : ∃ more, more ≠ [] ∧ p.segmentNames = above.segmentNames ++ more)
    (h : fs.resolve p = .ok id) : fs.pathExists above :=
  pathExists_of_isDirectory (isDirectory_above written nonempty names h)

end Above

end ModuleTree.FileSystem
