import ModuleTree.Proofs.FileSystem.Growth
/- What the calls do that change files. A directory or a file is made where a path leads to a
   gap, and then the path leads to it; writing changes the content of a file and nothing else. -/
namespace ModuleTree.FileSystem

variable {fs fs' : FileSystem} {id : NodeId} {p : Path}

theorem gap_of_follow {lastLink slashed : Bool} {budget : Nat} {current directory : NodeId}
    {segments : List Segment} {name : Bytes}
    (h : fs.follow lastLink budget current segments = .ok (.gap directory name slashed)) :
    ∃ left rest, fs.Leads ⟨budget, current, segments⟩ ⟨left, directory, .name name :: rest⟩ ∧
      (∀ s ∈ rest, s = .directoryOnly) ∧ slashed = !rest.isEmpty ∧
      ∃ parent entries, fs.Open directory parent entries ∧ Proper name ∧
        entries.lookup name = none := by
  obtain ⟨q, leads, arrives⟩ := arrives_of_followed h
  generalize found : Spot.gap directory name slashed = spot at arrives
  cases arrives with
  | node => cases found
  | link => cases found
  | gap missing last =>
    cases found
    obtain ⟨parent, entries, open_, steps⟩ := steps_of_enter missing
    exact ⟨_, _, leads, last, rfl, parent, entries, open_, steps.proper_of_none rfl⟩

theorem leads_filled {p : Place} {left : Nat} {directory : NodeId} {name : Bytes}
    {rest : List Segment} (leads : fs'.Leads p ⟨left, directory, .name name :: rest⟩)
    (enters : fs'.enter directory name = .ok (some id))
    (plain : ∀ target, fs'.node? id ≠ some (.link target))
    (last : ∀ s ∈ rest, s = .directoryOnly) (fits : rest ≠ [] → fs'.isDirectoryNode id) :
    fs'.Leads p ⟨left, id, []⟩ := by
  have onward : fs'.Leads ⟨left, id, rest⟩ ⟨left, id, []⟩ := by
    clear leads
    induction rest with
    | nil => exact .refl
    | cons s rest ih =>
      have here := fits (by simp)
      rw [last s List.mem_cons_self]
      have leads' := ih (fun s mem => last s (List.mem_cons_of_mem _ mem)) fun _ => here
      exact .head (.directory here) leads'
  exact leads.trans (.head (.entry enters plain) onward)

theorem openNode_ok {id' : NodeId} (h : fs.openNode id = .ok id') :
    id' = id ∧ fs.isLocked id = false := by
  unfold openNode at h
  split at h
  · cases h
  · rename_i unlocked
    cases h
    exact ⟨rfl, by simpa using unlocked⟩

theorem openFile_ok (h : fs.openFile p = .ok id) :
    fs.resolve p = .ok id ∧ fs.isLocked id = false := by
  unfold openFile at h
  split at h
  · cases h
  · rename_i other resolved
    obtain ⟨same, unlocked⟩ := openNode_ok h
    subst same
    exact ⟨resolved, unlocked⟩

theorem Grows.isLocked (grows : fs.Grows fs') (id : NodeId) : fs'.isLocked id = fs.isLocked id := by
  rw [FileSystem.isLocked, FileSystem.isLocked, grows.locked]

theorem Grows.pathExists (grows : fs.Grows fs') (there : fs.pathExists p) : fs'.pathExists p := by
  obtain ⟨id, found⟩ := pathExists_iff.mp there
  exact pathExists_iff.mpr ⟨id, grows.resolve found⟩

theorem Grows.isDirectory (grows : fs.Grows fs') (there : fs.isDirectory p = true) :
    fs'.isDirectory p = true := by
  obtain ⟨id, found, directory⟩ := isDirectory_iff.mp there
  exact isDirectory_iff.mpr ⟨id, grows.resolve found, grows.isDirectoryNode directory⟩

theorem pathExists_of_isDirectory (there : fs.isDirectory p = true) : fs.pathExists p = true := by
  obtain ⟨id, found, _⟩ := isDirectory_iff.mp there
  exact pathExists_iff.mpr ⟨id, found⟩

theorem Grows.openFile (grows : fs.Grows fs') (opens : fs.openFile p = .ok id) :
    fs'.openFile p = .ok id := by
  obtain ⟨there, unlocked⟩ := openFile_ok opens
  simp [FileSystem.openFile, grows.resolve there, openNode, grows.isLocked, unlocked]

inductive Blank (above : NodeId) : Node → Prop where
  | file : Blank above (.file .empty)
  | directory : Blank above (.directory above [])

theorem Blank.plain {above : NodeId} {node : Node} (h : Blank above node) (target : Path) :
    node ≠ .link target := by
  cases h <;> simp

/-- One call that changes the files: a new node in a gap, or other content for a file. -/
inductive Changes (fs : FileSystem) : FileSystem → Prop where
  | add {lastLink slashed : Bool} {p : Path} {segments : List Segment} {directory : NodeId}
      {name : Bytes} {node : Node}
      (gap : fs.follow lastLink linkLimit (fs.start p) segments =
        .ok (.gap directory name slashed)) (blank : Blank directory node) :
      Changes fs (fs.addNode directory name node).2
  | write {id : NodeId} {content : ByteArray} (here : fs.node? id = some (.file content))
      (content' : ByteArray) : Changes fs (fs.setNode id (.file content'))

theorem Changes.grows (h : fs.Changes fs') : fs.Grows fs' := by
  cases h with
  | add gap blank =>
    obtain ⟨_, _, _, _, _, parent, entries, open_, _, missing⟩ := gap_of_follow gap
    exact grows_addNode open_.node missing blank.plain
  | write here content' => exact grows_setFile here content'

section Fill

variable {lastLink slashed : Bool} {budget : Nat} {current directory : NodeId}
  {segments : List Segment} {name : Bytes} {node : Node}

theorem leads_addNode
    (gap : fs.follow lastLink budget current segments = .ok (.gap directory name slashed))
    (blank : Blank directory node)
    (fits : slashed → ∃ parent entries, node = .directory parent entries) :
    ∃ left, (fs.addNode directory name node).2.Leads ⟨budget, current, segments⟩
      ⟨left, fs.nodes.size, []⟩ := by
  obtain ⟨left, rest, leads, last, trailing, parent, entries, open_, proper, missing⟩ :=
    gap_of_follow gap
  have grows := grows_addNode open_.node missing blank.plain
  have inside := lt_size_of_node? open_.node
  have new : (fs.addNode directory name node).2.node? fs.nodes.size = some node := by
    rw [node?_addNode open_.node, if_neg (Nat.ne_of_gt inside), if_pos rfl]
  have there : (fs.addNode directory name node).2.Open directory parent
      (putEntry name fs.nodes.size entries) := by
    refine ⟨by rw [node?_addNode open_.node, if_pos rfl], ?_⟩
    rw [isLocked, grows.locked]
    exact open_.unlocked
  have enters : (fs.addNode directory name node).2.enter directory name =
      .ok (some fs.nodes.size) := by
    rw [enter_name there proper, lookup_putEntry, if_pos rfl]
  refine ⟨left, leads_filled (grows.leads leads) enters ?_ last ?_⟩
  · intro target link
    rw [new] at link
    exact blank.plain target (Option.some.inj link)
  · intro some
    obtain ⟨parent, entries, same⟩ := fits (by simpa [trailing] using some)
    rw [same] at new
    rw [same, isDirectoryNode, new]

theorem addNode_id (fs : FileSystem) (directory : NodeId) (name : Bytes) (node : Node) :
    (fs.addNode directory name node).1 = fs.nodes.size := by
  unfold addNode
  split <;> rfl

end Fill

theorem makeDirectory_ok (h : fs.makeDirectory p = .ok fs') : ∃ directory name slashed,
    fs.follow false linkLimit (fs.start p) (p.segmentNames.map .name) =
      .ok (.gap directory name slashed) ∧
    fs' = (fs.addNode directory name (.directory directory [])).2 := by
  unfold makeDirectory addEntry spot at h
  cases refused : refuse? p with
  | some e => simp [refused] at h
  | none =>
    rw [refused] at h
    dsimp only at h
    cases found : fs.follow false linkLimit (fs.start p) (p.segmentNames.map .name) with
    | error e => simp [found] at h
    | ok spot =>
      cases spot with
      | node id => simp [found] at h
      | gap directory name slashed =>
        rw [found] at h
        cases h
        exact ⟨directory, name, slashed, rfl, rfl⟩

theorem makeDirectory_of_resolve (h : fs.resolve p = .ok id) :
    fs.makeDirectory p = .error .alreadyExists := by
  obtain ⟨named, ⟨left, leads⟩, _⟩ := resolve_iff.mp h
  obtain ⟨there, found⟩ := followed_of_end leads
  have stands : fs.follow false linkLimit (fs.start p) (p.segmentNames.map .name) =
      .ok (.node there) := found
  simp [makeDirectory, addEntry, spot, named, stands]

theorem createFile_ok (h : fs.createFile p = .ok (id, fs')) :
    refuse? p = none ∧ p.endsInSlash = false ∧
      ((∃ directory name, fs.follow true linkLimit (fs.start p) (p.segmentNames.map .name) =
          .ok (.gap directory name false) ∧ (id, fs') = fs.addNode directory name (.file .empty)) ∨
        fs.LeadsTo p p.segmentNames id ∧ ((∃ content, fs.node? id = some (.file content) ∧
          fs' = fs.setNode id (.file .empty)) ∨
          fs' = fs ∧ fs.isDirectoryNode id = false ∧
            ∀ content, fs.node? id ≠ some (.file content))) := by
  unfold createFile at h
  split at h
  · split at h <;> cases h
  · rename_i slashless
    have plain : p.endsInSlash = false := by simpa using slashless
    have segments : p.segments = p.segmentNames.map .name := by
      rw [segments_eq, plain]
      simp
    rw [segments, spot] at h
    cases refused : refuse? p with
    | some e => simp [refused] at h
    | none =>
      rw [refused] at h
      dsimp only at h
      refine ⟨rfl, plain, ?_⟩
      cases found : fs.follow true linkLimit (fs.start p) (p.segmentNames.map .name) with
      | error e => simp [found] at h
      | ok spot =>
        rw [found] at h
        cases spot with
        | gap directory name slashed =>
          cases slashed with
          | true => cases h
          | false => exact .inl ⟨directory, name, rfl, (Except.ok.inj h).symm⟩
        | node other =>
          have leads := follow_node_iff.mp found
          unfold truncate at h
          dsimp only at h
          cases node : fs.node? other with
          | none =>
            simp only [node] at h
            split at h
            · cases h
            · cases h
              exact .inr ⟨leads, .inr ⟨rfl, by simp [isDirectoryNode, node], by simp [node]⟩⟩
          | some there =>
            cases there with
            | directory parent entries => simp [node] at h
            | file content =>
              simp only [node] at h
              split at h
              · cases h
              · cases h
                exact .inr ⟨leads, .inl ⟨content, node, rfl⟩⟩
            | _ =>
              simp only [node] at h
              split at h
              · cases h
              · cases h
                exact .inr ⟨leads, .inr ⟨rfl, by simp [isDirectoryNode, node], by simp [node]⟩⟩

theorem writeNode_cases (fs : FileSystem) (id : NodeId) (bytes : ByteArray) :
    (∃ content, fs.node? id = some (.file content) ∧ fs.writeNode id bytes =
      fs.setNode id (.file (bytes ++ content.extract bytes.size content.size))) ∨
    (∀ content, fs.node? id ≠ some (.file content)) ∧ fs.writeNode id bytes = fs := by
  unfold writeNode
  cases node : fs.node? id with
  | none => exact .inr ⟨by simp, rfl⟩
  | some there =>
    cases there with
    | file content => exact .inl ⟨content, rfl, rfl⟩
    | _ => exact .inr ⟨by simp, rfl⟩

theorem makeDirectory_changes (h : fs.makeDirectory p = .ok fs') : fs.Changes fs' := by
  obtain ⟨directory, name, slashed, gap, same⟩ := makeDirectory_ok h
  exact same ▸ .add gap .directory

theorem createFile_changes (h : fs.createFile p = .ok (id, fs')) : fs' = fs ∨ fs.Changes fs' := by
  obtain ⟨_, _, ⟨directory, name, gap, same⟩ | ⟨_, ⟨content, here, same⟩ | ⟨same, _⟩⟩⟩ :=
    createFile_ok h
  · have added := Changes.add gap .file
    rw [← same] at added
    exact .inr added
  · exact .inr (same ▸ .write here .empty)
  · exact .inl same

theorem writeNode_changes (fs : FileSystem) (id : NodeId) (bytes : ByteArray) :
    fs.writeNode id bytes = fs ∨ fs.Changes (fs.writeNode id bytes) := by
  rcases writeNode_cases fs id bytes with ⟨content, here, same⟩ | ⟨_, same⟩
  · exact .inr (same ▸ .write here _)
  · exact .inl same

theorem grows_of_changes (h : fs' = fs ∨ fs.Changes fs') : fs.Grows fs' := by
  rcases h with same | changes
  · exact same ▸ grows_refl fs
  · exact changes.grows

theorem leadsTo_of_createFile (h : fs.createFile p = .ok (id, fs')) :
    fs'.LeadsTo p p.segmentNames id := by
  have grows := grows_of_changes (createFile_changes h)
  obtain ⟨_, _, ⟨directory, name, gap, same⟩ | ⟨⟨left, leads⟩, _⟩⟩ := createFile_ok h
  · obtain ⟨left, leads⟩ := leads_addNode gap .file (by simp)
    rw [← addNode_id fs directory name (.file .empty), ← same] at leads
    unfold LeadsTo
    rw [grows.start]
    exact ⟨left, leads⟩
  · unfold LeadsTo
    rw [grows.start]
    exact ⟨left, grows.leads leads⟩

theorem resolve_of_createFile (h : fs.createFile p = .ok (id, fs')) : fs'.resolve p = .ok id := by
  obtain ⟨named, slashless, _⟩ := createFile_ok h
  exact resolve_iff.mpr ⟨named, leadsTo_of_createFile h, by simp [slashless]⟩

theorem node_of_createFile (h : fs.createFile p = .ok (id, fs')) :
    fs'.node? id = some (.file .empty) ∨
      fs' = fs ∧ fs.isDirectoryNode id = false ∧ ∀ content, fs.node? id ≠ some (.file content) := by
  obtain ⟨_, _, ⟨directory, name, gap, same⟩ | ⟨_, ⟨_, here, same⟩ | other⟩⟩ := createFile_ok h
  · obtain ⟨_, _, _, _, _, parent, entries, open_, _⟩ := gap_of_follow gap
    have inside := lt_size_of_node? open_.node
    have new := node?_addNode open_.node name (.file .empty) fs.nodes.size
    rw [if_neg (Nat.ne_of_gt inside), if_pos rfl, ← same] at new
    have at_ : id = fs.nodes.size := by
      rw [← addNode_id fs directory name (.file .empty), ← same]
    exact .inl (at_ ▸ new)
  · exact .inl (by rw [same, node?_setNode, if_pos ⟨rfl, lt_size_of_node? here⟩])
  · exact .inr other

theorem extract_empty (start stop : Nat) : ByteArray.empty.extract start stop = .empty := by
  rw [ByteArray.extract_eq_empty_iff]
  simp

theorem writeNode_of_empty (here : fs.node? id = some (.file .empty)) (bytes : ByteArray) :
    fs.writeNode id bytes = fs.setNode id (.file bytes) := by
  rcases writeNode_cases fs id bytes with ⟨content, there, same⟩ | ⟨other, _⟩
  · cases here.symm.trans there
    rw [same, extract_empty, ByteArray.append_empty]
  · exact absurd here (other .empty)

end ModuleTree.FileSystem
