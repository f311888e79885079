import ModuleTree.Proofs.Dictionary
import ModuleTree.Proofs.FileSystem.Numbered
import ModuleTree.Path.Name
/- Two file systems with nodes in common. Their common directories hold the same under each visible
   name, and under hidden names what they like. A path that passes through nothing in which they
   differ leads the same way in both. -/
namespace ModuleTree.FileSystem

inductive SameKind : Option Node → Option Node → Prop where
  | plain {node : Option Node} (plain : ∀ parent entries, node ≠ some (.directory parent entries)) :
      SameKind node node
  | directory {parent : NodeId} {entries entries' : List (Bytes × NodeId)} :
      SameKind (some (.directory parent entries)) (some (.directory parent entries'))

theorem SameKind.refl (node : Option Node) : SameKind node node := by
  cases node with
  | none => exact .plain nofun
  | some node =>
    cases node with
    | directory parent entries => exact .directory
    | _ => exact .plain nofun

/-- Under this name a directory holds the same in both, and what it holds is common to them. -/
structure AgreeAt (fs fs' : FileSystem) (common : NodeId → Prop) (id : NodeId) (name : Bytes) :
    Prop where
  same : (fs.entries id).lookup name = (fs'.entries id).lookup name
  common : ∀ child, (fs.entries id).lookup name = some child → common child

structure Alike (fs fs' : FileSystem) (common : NodeId → Prop) : Prop where
  root : fs.root = fs'.root ∧ common fs.root
  home : fs.home = fs'.home ∧ common fs.home
  locked : ∀ id, common id → fs.isLocked id = fs'.isLocked id
  kinds : ∀ id, common id → SameKind (fs.node? id) (fs'.node? id)
  above : ∀ id parent entries, common id → fs.node? id = some (.directory parent entries) →
    common parent
  visible : ∀ id name, common id → Path.isHidden name = false → AgreeAt fs fs' common id name

/-- From this place nothing is passed in which the file systems differ. -/
def Avoids (fs fs' : FileSystem) (common : NodeId → Prop) (p : Place) : Prop :=
  ∀ q, fs.Leads p q → ∀ name rest, q.segments = .name name :: rest →
    AgreeAt fs fs' common q.current name

variable {fs fs' : FileSystem} {common : NodeId → Prop} {id : NodeId} {name : Bytes} {p : Path}

section Nodes

variable (alike : Alike fs fs' common) (here : common id)
include alike here

theorem isDirectoryNode_alike : fs.isDirectoryNode id = fs'.isDirectoryNode id := by
  have kind := alike.kinds id here
  unfold isDirectoryNode
  generalize fs.node? id = node, fs'.node? id = node' at kind ⊢
  cases kind <;> rfl

theorem link_alike {target : Path} :
    fs.node? id = some (.link target) ↔ fs'.node? id = some (.link target) := by
  have kind := alike.kinds id here
  generalize fs.node? id = node, fs'.node? id = node' at kind ⊢
  cases kind <;> simp

theorem openNode_alike : fs.openNode id = fs'.openNode id := by
  rw [openNode, openNode, alike.locked id here]

theorem enter_alike (agree : AgreeAt fs fs' common id name) :
    fs.enter id name = fs'.enter id name ∧
      ∀ next, fs.enter id name = .ok (some next) → common next := by
  have kind := alike.kinds id here
  have above := alike.above id
  obtain ⟨same, held⟩ := agree
  unfold enter
  unfold entries at same held
  rw [← alike.locked id here]
  generalize fs.node? id = node, fs'.node? id = node' at kind above same held ⊢
  cases kind with
  | plain plain =>
    cases node with
    | none => exact ⟨rfl, nofun⟩
    | some node =>
      cases node with
      | directory parent entries => exact absurd rfl (plain parent entries)
      | _ => exact ⟨rfl, nofun⟩
  | @directory parent entries entries' =>
    dsimp only at same held ⊢
    rw [same]
    refine ⟨rfl, fun next enters => ?_⟩
    split at enters
    · cases enters
    · split at enters
      · cases enters
        exact here
      · split at enters
        · cases enters
          exact above _ _ here rfl
        · split at enters
          · cases enters
          · exact held next (same ▸ Except.ok.inj enters)

end Nodes

section Follow

theorem Avoids.goes {p q : Place} (avoids : Avoids fs fs' common p) (step : fs.Goes p q) :
    Avoids fs fs' common q :=
  fun r leads => avoids r (.head step leads)

theorem Avoids.agree {budget : Nat} {rest : List Segment}
    (avoids : Avoids fs fs' common ⟨budget, id, .name name :: rest⟩) :
    AgreeAt fs fs' common id name :=
  avoids _ .refl name rest rfl

theorem Avoids.front {budget : Nat} {front later : List Segment}
    (avoids : Avoids fs fs' common ⟨budget, id, front ++ later⟩) :
    Avoids fs fs' common ⟨budget, id, front⟩ := by
  intro q leads name rest same
  refine avoids _ (leads_more leads later) name (rest ++ later) ?_
  simp [Place.more, same]

theorem Avoids.append {budget : Nat} {front later : List Segment}
    (first : Avoids fs fs' common ⟨budget, id, front⟩)
    (second : ∀ left next, fs.Leads ⟨budget, id, front⟩ ⟨left, next, []⟩ →
      Avoids fs fs' common ⟨left, next, later⟩) :
    Avoids fs fs' common ⟨budget, id, front ++ later⟩ := by
  intro q leads name rest same
  rcases leads_split (p := ⟨budget, id, front⟩) leads with
    ⟨r, early, rfl⟩ | ⟨left, next, early, late⟩
  · obtain ⟨left, next, segments⟩ := r
    cases segments with
    | nil => exact second left next early _ .refl name rest same
    | cons segment segments =>
      obtain ⟨here, _⟩ := List.cons.inj same
      exact first _ early name segments (here ▸ rfl)
  · exact second left next early q late name rest same

theorem follow_alike (alike : Alike fs fs' common) (lastLink : Bool) {budget : Nat}
    {current : NodeId} {segments : List Segment} (here : common current)
    (avoids : Avoids fs fs' common ⟨budget, current, segments⟩) :
    fs.follow lastLink budget current segments = fs'.follow lastLink budget current segments ∧
      ∀ id, fs.follow lastLink budget current segments = .ok (.node id) → common id := by
  induction budget, current, segments using follow.induct fs lastLink with
  | case1 budget current =>
    rw [follow, follow]
    refine ⟨rfl, fun id same => ?_⟩
    cases same
    exact here
  | case2 budget current rest isDirectory ih =>
    rw [follow, follow, ← isDirectoryNode_alike alike here, if_pos isDirectory, if_pos isDirectory]
    exact ih here (avoids.goes (.directory isDirectory))
  | case3 budget current rest notDirectory =>
    rw [follow, follow, ← isDirectoryNode_alike alike here, if_neg notDirectory,
      if_neg notDirectory]
    refine ⟨rfl, fun id same => ?_⟩
    cases same
  | case4 budget current name rest e enters =>
    have enters' := (enter_alike alike here avoids.agree).1.symm.trans enters
    rw [follow, follow, enters, enters']
    refine ⟨rfl, fun id same => ?_⟩
    cases same
  | case5 budget current name rest missing last =>
    have missing' := (enter_alike alike here avoids.agree).1.symm.trans missing
    rw [follow, follow, missing, missing']
    simp [last]
  | case6 budget current name rest missing last =>
    have missing' := (enter_alike alike here avoids.agree).1.symm.trans missing
    rw [follow, follow, missing, missing']
    simp [last]
  | case7 budget current name rest id enters target link last =>
    obtain ⟨same, held⟩ := enter_alike alike here avoids.agree
    have there := held id enters
    have link' := (link_alike alike there).mp link
    simp only [follow, same.symm.trans enters, enters, link, link', last, if_true]
    refine ⟨trivial, fun id same => ?_⟩
    cases same
    exact there
  | case8 current name rest id enters target link onward =>
    obtain ⟨same, held⟩ := enter_alike alike here avoids.agree
    have there := held id enters
    have link' := (link_alike alike there).mp link
    simp [follow, same.symm.trans enters, enters, link, link', onward]
  | case9 current name rest id enters target link onward budget ih =>
    obtain ⟨same, held⟩ := enter_alike alike here avoids.agree
    have there := held id enters
    have link' := (link_alike alike there).mp link
    have further : lastLink = true ∨ rest ≠ [] := by
      cases rest with
      | nil => exact .inl (by simpa using onward)
      | cons _ _ => exact .inr (List.cons_ne_nil _ _)
    rw [follow_link enters link further, follow_link (same.symm.trans enters) link' further,
      ← alike.root.1]
    rw [dite_eq_ite] at ih
    refine ih ?_ (avoids.goes (.link enters link))
    split
    · exact alike.root.2
    · exact here
  | case10 budget current name rest id enters plain ih =>
    obtain ⟨same, held⟩ := enter_alike alike here avoids.agree
    have there := held id enters
    have plain' : ∀ target, fs'.node? id ≠ some (.link target) := fun target link =>
      plain target ((link_alike alike there).mpr link)
    rw [follow_entry enters plain, follow_entry (same.symm.trans enters) plain']
    exact ih there (avoids.goes (.entry enters plain))

end Follow

def PathAvoids (fs fs' : FileSystem) (common : NodeId → Prop) (p : Path) : Prop :=
  Avoids fs fs' common ⟨linkLimit, fs.start p, p.segments⟩

section Resolve

variable (alike : Alike fs fs' common)
include alike

theorem start_alike (p : Path) : fs.start p = fs'.start p ∧ common (fs.start p) := by
  unfold start
  split
  · exact alike.root
  · exact alike.home

theorem resolveWith_alike (lastLink : Bool) (avoids : PathAvoids fs fs' common p) :
    fs.resolveWith lastLink p = fs'.resolveWith lastLink p ∧
      ∀ id, fs.resolveWith lastLink p = .ok id → common id := by
  obtain ⟨start, here⟩ := start_alike alike p
  obtain ⟨same, held⟩ := follow_alike alike lastLink here avoids
  unfold resolveWith spot
  cases refuse? p with
  | some e => exact ⟨rfl, nofun⟩
  | none =>
    dsimp only
    rw [← start, ← same]
    cases found : fs.follow lastLink linkLimit (fs.start p) p.segments with
    | error e => exact ⟨rfl, nofun⟩
    | ok spot =>
      cases spot with
      | gap => exact ⟨rfl, nofun⟩
      | node id =>
        refine ⟨rfl, fun id same => ?_⟩
        cases same
        exact held _ found

theorem resolve_alike (avoids : PathAvoids fs fs' common p) :
    fs.resolve p = fs'.resolve p ∧ ∀ id, fs.resolve p = .ok id → common id :=
  resolveWith_alike alike true avoids

theorem isDirectory_alike (avoids : PathAvoids fs fs' common p) :
    fs.isDirectory p = fs'.isDirectory p := by
  obtain ⟨same, held⟩ := resolve_alike alike avoids
  unfold isDirectory
  rw [← same]
  cases resolved : fs.resolve p with
  | error e => rfl
  | ok id => exact isDirectoryNode_alike alike (held id resolved)

theorem readDirectory_alike (avoids : PathAvoids fs fs' common p) :
    (∃ e, fs.readDirectory p = .error e ∧ fs'.readDirectory p = .error e) ∨
      ∃ entries entries', fs.readDirectory p = .ok entries ∧
        fs'.readDirectory p = .ok entries' := by
  obtain ⟨same, held⟩ := resolve_alike alike avoids
  unfold readDirectory openFile
  rw [← same]
  cases resolved : fs.resolve p with
  | error e => exact .inl ⟨e, rfl, rfl⟩
  | ok id =>
    have here := held id resolved
    dsimp only
    rw [← openNode_alike alike here]
    cases opened : fs.openNode id with
    | error e => exact .inl ⟨e, rfl, rfl⟩
    | ok id' =>
      cases (openNode_ok opened).1
      dsimp only
      rw [← isDirectoryNode_alike alike here]
      cases fs.isDirectoryNode id with
      | false => exact .inl ⟨_, rfl, rfl⟩
      | true => exact .inr ⟨_, _, rfl, rfl⟩

end Resolve

section Numbered

def shown (entries : List (Bytes × NodeId)) : List (Bytes × NodeId) :=
  entries.filter fun entry => !Path.isHidden entry.1

theorem lookup_shown (entries : List (Bytes × NodeId)) (visible : Path.isHidden name = false) :
    (shown entries).lookup name = entries.lookup name := by
  induction entries with
  | nil => rfl
  | cons entry rest ih =>
    cases hidden : Path.isHidden entry.1 with
    | false =>
      have first : shown (entry :: rest) = entry :: shown rest := by simp [shown, hidden]
      rw [first, Dictionary.lookup_cons_ite, Dictionary.lookup_cons_ite, ih]
    | true =>
      have past : shown (entry :: rest) = shown rest := by simp [shown, hidden]
      have other : name ≠ entry.1 := fun same => by simp [same, hidden] at visible
      rw [past, ih, Dictionary.lookup_cons_ite, if_neg other]

theorem alike_of_numbered {n : Nat} (root : fs.root = fs'.root ∧ fs.root < n)
    (home : fs.home = fs'.home ∧ fs.home < n)
    (locked : ∀ id < n, fs.isLocked id = fs'.isLocked id)
    (kinds : ∀ id < n, fs.node? id = fs'.node? id ∨
      fs.above? id = fs'.above? id ∧ (fs.above? id).isSome)
    (above : ∀ id < n, ∀ parent ∈ fs.above? id, parent < n)
    (visible : ∀ id < n, shown (fs.entries id) = shown (fs'.entries id))
    (inside : ∀ id < n, ∀ entry ∈ shown (fs.entries id), entry.2 < n) :
    Alike fs fs' (· < n) where
  root := root
  home := home
  locked := locked
  kinds id here := by
    rcases kinds id here with same | ⟨same, some⟩
    · exact same ▸ .refl _
    · obtain ⟨parent, up⟩ := Option.isSome_iff_exists.mp some
      obtain ⟨entries, node⟩ := node_of_above? up
      obtain ⟨entries', node'⟩ := node_of_above? (same.symm.trans up)
      rw [node, node']
      exact .directory
  above id parent entries here node := above id here parent (by simp [above?, node])
  visible id name here shows_ := by
    constructor
    · rw [← lookup_shown _ shows_, visible id here, lookup_shown _ shows_]
    · intro child held
      rw [← lookup_shown _ shows_] at held
      exact inside id here _ (mem_of_lookup held)

end Numbered

section Linkless

theorem linkless_of_numbered
    (plain : ∀ id < fs.nodes.size, fs.isDirectoryNode id ∨ fs.isFileNode id) (id : NodeId)
    (target : Path) : fs.node? id ≠ some (.link target) := by
  intro link
  have kind := plain id (lt_size_of_node? link)
  simp [isDirectoryNode, isFileNode, link] at kind

theorem pathAvoids_of_linkless (alike : Alike fs fs' common)
    (linkless : ∀ id target, fs.node? id ≠ some (.link target))
    (visible : ∀ name ∈ p.segmentNames, Path.isHidden name = false) :
    PathAvoids fs fs' common p := by
  have shows_ {name : Bytes} (mem : .name name ∈ p.segments) : Path.isHidden name = false := by
    rw [segments_eq] at mem
    rcases List.mem_append.mp mem with named | last
    · obtain ⟨_, held, same⟩ := List.mem_map.mp named
      cases same
      exact visible name held
    · split at last <;> simp at last
  have along (q : Place) (leads : fs.Leads ⟨linkLimit, fs.start p, p.segments⟩ q) :
      common q.current ∧ q.segments <:+ p.segments := by
    induction leads with
    | refl => exact ⟨(start_alike alike p).2, List.suffix_rfl⟩
    | tail _ step ih =>
      obtain ⟨here, behind⟩ := ih
      cases step with
      | directory => exact ⟨here, (List.suffix_cons _ _).trans behind⟩
      | link _ link => exact absurd link (linkless _ _)
      | @entry _ current id name rest enters =>
        have agree := alike.visible current name here (shows_ (behind.subset List.mem_cons_self))
        exact ⟨(enter_alike alike here agree).2 id enters, (List.suffix_cons _ _).trans behind⟩
  intro q leads name rest same
  obtain ⟨here, behind⟩ := along q leads
  exact alike.visible _ name here (shows_ (behind.subset (same ▸ List.mem_cons_self)))

end Linkless

end ModuleTree.FileSystem
