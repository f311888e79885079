import ModuleTree.Proofs.FileSystem.Frame
import ModuleTree.Proofs.FileSystem.Level
/- What stays as it was below a destination while files are put there. A path that is on the way
   to none of their places names what it named before, or nothing as before. -/
namespace ModuleTree.FileSystem

/-- A destination that is there, or is empty when it comes to be. -/
def OpensEmpty (fs : FileSystem) (destination : Path) : Prop :=
  fs.Awaits destination fun fs' top =>
    fs.LeadsTo destination destination.segmentNames top ∨ fs'.entries top = []

/-- What is below a node was there before, or is new and on the way to one of these places. -/
def Traced (before : FileSystem) (destination : Path) (sites : Path → Prop) (fs : FileSystem)
    (top : NodeId) : Prop :=
  ∀ names id, names ≠ [] → fs.Descends top names id →
    before.At destination names id ∨ before.nodes.size ≤ id ∧
      ∃ site, sites site ∧ destination.segmentNames ++ names <+: site.segmentNames

section Opening

variable {fs : FileSystem} {destination : Path}

theorem opensEmpty_of_level (bounded : fs.Bounded) (level : up ∉ destination.segmentNames) :
    fs.OpensEmpty destination := by
  unfold OpensEmpty
  exact awaits_of_level bounded level (fun _ => .inl) fun _ _ => .inr

theorem OpensEmpty.awaits {P : FileSystem → NodeId → Prop} (opens : fs.OpensEmpty destination)
    (present : ∀ id, fs.LeadsTo destination destination.segmentNames id → P fs id)
    (empty : ∀ fs id, fs.entries id = [] → P fs id) : fs.Awaits destination P := by
  intro fs' paved id leads
  rcases opens fs' paved id leads with there | nothing
  · rcases Relation.ReflTransGen.cases_head paved with same | ⟨_, step, _⟩
    · subst same
      exact present id leads
    · exact absurd step (not_paves_of_present there)
  · exact empty fs' id nothing

theorem OpensEmpty.receives (opens : fs.OpensEmpty destination) (clean : fs.Clean destination) :
    fs.Receives destination :=
  opens.awaits (P := HoldsOnlyFiles) clean fun _ _ => holdsOnlyFiles_of_empty

theorem OpensEmpty.traced (opens : fs.OpensEmpty destination) (sites : Path → Prop) :
    fs.Awaits destination (fs.Traced destination sites) := by
  apply opens.awaits (P := fs.Traced destination sites)
  · intro top there names id _ down
    exact .inl ⟨top, there, down⟩
  · intro fs' top empty names id some down
    exact absurd (names_of_empty empty down) some

end Opening

section Traced

variable {before fs fs' : FileSystem} {destination : Path} {sites sites' : Path → Prop}

theorem Traced.mono {top : NodeId} (traced : before.Traced destination sites fs top)
    (more : ∀ site, sites site → sites' site) : before.Traced destination sites' fs top := by
  intro names id some down
  rcases traced names id some down with old | ⟨new, site, wanted, way⟩
  · exact .inl old
  · exact .inr ⟨new, site, more site wanted, way⟩

theorem Framed.descends {top id : NodeId} {names : List Bytes}
    (framed : fs.Framed fs' destination sites) (h : fs'.Descends top names id) :
    fs.Descends top names id ∨ fs.nodes.size ≤ id ∧ fs'.Added destination sites id := by
  induction h with
  | nil => exact .inl .nil
  | @concat names name id child above entry ih =>
    by_cases old : (name, child) ∈ fs.entries id
    · rcases ih with down | ⟨new, _⟩
      · exact .inl (.concat down old)
      · exact absurd (Nat.lt_of_lt_of_le (id_lt_of_mem_entries old) new) (Nat.lt_irrefl _)
    · exact .inr (framed.added id (name, child) entry old)

theorem prefix_of_added {top id : NodeId} {names : List Bytes} (tree : fs'.Tree)
    (bounded : fs.Bounded) (grows : fs.Grows fs')
    (there : fs.LeadsTo destination destination.segmentNames top)
    (here : fs'.At destination names id) (new : fs.nodes.size ≤ id)
    (added : fs'.Added destination sites id) :
    ∃ site, sites site ∧ destination.segmentNames ++ names <+: site.segmentNames := by
  cases added with
  | @way p way leads =>
    -- All that is on the way to the destination was there.
    obtain ⟨rest, whole⟩ := way.names
    rw [← whole] at there
    obtain ⟨middle, front⟩ := leadsTo_front there
    rw [LeadsTo, ← start_eq fs way.absolute] at front
    cases leadsTo_unique (grows.leadsTo front) leads
    obtain ⟨left, front⟩ := front
    have old := bounded.leads front (bounded.start p)
    exact absurd (Nat.lt_of_lt_of_le old new) (Nat.lt_irrefl _)
  | between wanted _ _ above there' =>
    rw [at_unique tree here there']
    refine ⟨_, wanted, ?_⟩
    rw [above, ← List.append_assoc]
    exact List.prefix_append _ _
  | file file =>
    obtain ⟨site, names', wanted, _, whole, there', _⟩ := file
    rw [at_unique tree here there']
    exact ⟨site, wanted, whole ▸ List.prefix_rfl⟩

theorem Awaits.traced_puts (traced : fs.Awaits destination (before.Traced destination sites))
    (tree : fs'.Tree) (bounded : fs.Bounded) (size : before.nodes.size ≤ fs.nodes.size)
    (linkFree : fs.Awaits destination LinkFree)
    (lies : ∀ site, sites' site → destination.Lies site) (puts : fs.Puts destination sites' fs')
    (more : ∀ site, sites site → sites' site) :
    fs'.Awaits destination (before.Traced destination sites') := by
  refine traced.puts lies puts (fun _ _ traced => traced.mono more) ?_
  intro top there traced names id some down
  have framed := framed_of_puts linkFree lies puts
  rcases framed.descends down with old | ⟨new, added⟩
  · exact traced.mono more names id some old
  · have here : fs'.At destination names id := ⟨top, framed.grows.leadsTo there, down⟩
    exact .inr ⟨Nat.le_trans size new,
      prefix_of_added tree bounded framed.grows there here new added⟩

end Traced

section Unmoved

variable {before fs : FileSystem} {destination q : Path} {sites : Path → Prop} {top id : NodeId}
  {names : List Bytes}

theorem lt_size_of_at (bounded : fs.Bounded) (here : fs.At destination names id) :
    id < fs.nodes.size := by
  obtain ⟨top, ⟨left, leads⟩, down⟩ := here
  cases down with
  | nil => exact bounded.leads leads (bounded.start destination)
  | concat _ entry => exact bounded.inside _ _ entry

theorem enter_as_before {middle : NodeId} {name : Bytes} (grows : before.Grows fs)
    (distinct : ((before.entries middle).map Prod.fst).Nodup)
    (entry : (name, id) ∈ before.entries middle) (valid : Path.IsName name)
    (enters : fs.enter middle name = .ok (some id)) : before.enter middle name = .ok (some id) := by
  obtain ⟨parent, node⟩ := node_of_mem_entries entry
  obtain ⟨_, _, open_, steps⟩ := steps_of_enter enters
  have unlocked : before.isLocked middle = false := by
    rw [isLocked, ← grows.locked]
    exact open_.unlocked
  generalize found : some id = result at steps
  cases steps with
  | here => exact absurd rfl valid.notHere
  | up => exact absurd rfl valid.notUp
  | name proper => rw [enter_name ⟨node, unlocked⟩ proper, lookup_of_mem entry distinct, found]

theorem leads_as_before (grows : before.Grows fs)
    (distinct : ∀ id, ((before.entries id).map Prod.fst).Nodup) (once : fs.NoHardLinks)
    (kept : ∀ id, before.entries id ⊆ fs.entries id) (linkFree : fs.LinkFree top)
    (down : before.Descends top names id) (valid : ∀ name ∈ names, Path.IsName name)
    {left left' : Nat} (h : fs.Leads ⟨left, top, names.map .name⟩ ⟨left', id, []⟩) :
    before.Leads ⟨left, top, names.map .name⟩ ⟨left', id, []⟩ := by
  induction down generalizing left' with
  | nil =>
    cases leads_of_end h
    exact .refl
  | @concat names name middle child above entry ih =>
    have valid_ : ∀ n ∈ names, Path.IsName n := fun n mem => valid n (List.mem_append_left _ mem)
    have here : Path.IsName name := valid name (by simp)
    rw [List.map_append] at h ⊢
    obtain ⟨budget, middle', first, last⟩ := leads_append.mp h
    obtain ⟨entry', enters, plain⟩ :=
      entry_of_leads linkFree (descends_of_leads linkFree valid_ first) here last
    -- The node has one name, so it is in the directory where it was.
    obtain ⟨same, _⟩ := once _ _ _ entry' _ (kept _ entry) rfl
    subst same
    obtain ⟨rfl, _⟩ := end_unique last (.single (.entry enters plain))
    refine leads_append.mpr ⟨_, _, ih valid_ first, .single (.entry ?_ ?_)⟩
    · exact enter_as_before grows (distinct _) entry here enters
    · exact fun target link => plain target (grows.link.mpr link)

/-- Files put at these places, seen from what was there before. -/
structure Beside (before fs : FileSystem) (destination : Path) (sites : Path → Prop) : Prop where
  framed : before.Framed fs destination sites
  ready : fs.Ready destination
  traced : fs.Awaits destination (before.Traced destination sites)

theorem Beside.puts {fs' : FileSystem} {sites' : Path → Prop}
    (beside : before.Beside fs destination sites)
    (lies : ∀ site, sites' site → destination.Lies site) (puts : fs.Puts destination sites' fs')
    (more : ∀ site, sites site → sites' site) : before.Beside fs' destination sites' := by
  have linkFree := beside.ready.receives.linkFree
  have ready := beside.ready.puts lies puts
  refine ⟨?_, ready, ?_⟩
  · exact (beside.framed.mono more).trans (framed_of_puts linkFree lies puts)
  · exact beside.traced.traced_puts ready.tree beside.ready.tree.bounded beside.framed.size linkFree
      lies puts more

theorem Beside.node? (beside : before.Beside fs destination sites) (bounded : before.Bounded)
    (here : before.At destination names id)
    (apart : ∀ site, sites site → ¬destination.segmentNames ++ names <+: site.segmentNames) :
    fs.node? id = before.node? id := by
  obtain ⟨framed, ready, traced⟩ := beside
  have small := lt_size_of_at bounded here
  have there : before.node? id = .some before.nodes[id] := Array.getElem?_eq_getElem small
  obtain ⟨node, there', becomes⟩ := framed.kept id _ there
  have later := here.later framed.grows framed.entries_subset
  rw [there]
  generalize before.nodes[id] = old at becomes
  cases becomes with
  | same => exact there'
  | written content content' file =>
    obtain ⟨site, names', wanted, _, whole, here', _⟩ := file
    cases at_unique ready.tree later here'
    exact absurd (whole ▸ List.prefix_rfl) (apart site wanted)
  | grown kept more =>
    -- The new name is on the way to a place, and so is the directory.
    obtain ⟨entry, mem, new⟩ := more
    obtain ⟨top, leads, down⟩ := later
    have child : fs.Descends top (names ++ [entry.1]) entry.2 := by
      refine .concat down ?_
      rw [entries_eq there']
      exact mem
    rcases traced fs .refl top leads _ _ (by simp) child with old | ⟨_, site, wanted, way⟩
    · have small := lt_size_of_at bounded old
      exact absurd (Nat.lt_of_lt_of_le small new) (Nat.lt_irrefl _)
    · rw [← List.append_assoc] at way
      exact absurd ((List.prefix_append _ _).trans way) (apart site wanted)

theorem Beside.at_of_leadsTo (beside : before.Beside fs destination sites)
    (lies : destination.Lies q)
    (apart : ∀ site, sites site → ¬q.segmentNames <+: site.segmentNames)
    (leads : fs.LeadsTo q q.segmentNames id)
    (below : q.segmentNames = destination.segmentNames ++ names) (some : names ≠ []) :
    before.At destination names id := by
  have linkFree := beside.ready.receives.linkFree fs .refl
  obtain ⟨top, there, down⟩ := at_of_lies linkFree lies leads below
  rcases beside.traced fs .refl top there names id some down with old | ⟨_, site, wanted, way⟩
  · exact old
  · rw [← below] at way
    exact absurd way (apart site wanted)

theorem Beside.resolve_iff (beside : before.Beside fs destination sites) (sound : before.Sound)
    (lies : destination.Lies q)
    (apart : ∀ site, sites site → ¬q.segmentNames <+: site.segmentNames) :
    fs.resolve q = .ok id ↔ before.resolve q = .ok id := by
  have grows := beside.framed.grows
  constructor
  · intro h
    obtain ⟨named, leads, slashed⟩ := FileSystem.resolve_iff.mp h
    obtain ⟨names, some, valid, below⟩ := lies.names
    have here := beside.at_of_leadsTo lies apart leads below some
    have same := beside.node? sound.bounded here (below ▸ apart)
    refine FileSystem.resolve_iff.mpr ⟨named, ?_, fun slash => ?_⟩
    · obtain ⟨top, ⟨left, first⟩, down⟩ := here
      have linkFree := beside.ready.receives.linkFree fs .refl top (grows.leadsTo ⟨left, first⟩)
      rw [below, leadsTo_append] at leads ⊢
      obtain ⟨left₁, left₂, middle, front, onward⟩ := leads
      rw [start_eq fs lies.absolute, grows.start] at front
      obtain ⟨rfl, rfl⟩ := end_unique front (grows.leads first)
      rw [start_eq before lies.absolute]
      refine ⟨left₁, left₂, middle, first, ?_⟩
      exact leads_as_before grows sound.distinct beside.ready.tree.once
        beside.framed.entries_subset linkFree down valid onward
    · have directory := slashed slash
      rw [isDirectoryNode, same] at directory
      exact directory
  · exact grows.resolve

theorem Beside.named? (beside : before.Beside fs destination sites) (sound : before.Sound)
    (receives : before.Receives destination) (lies : destination.Lies q)
    (apart : ∀ site, sites site → ¬q.segmentNames <+: site.segmentNames) :
    fs.named? q = before.named? q := by
  obtain ⟨names, _, _, below⟩ := lies.names
  have linkFree := receives.linkFree before .refl
  have resolved {id : NodeId} : fs.resolveLink q = .ok id ↔ before.resolveLink q = .ok id := by
    rw [resolveLink_iff (beside.ready.receives.linkFree fs .refl) lies,
      resolveLink_iff linkFree lies, beside.resolve_iff sound lies apart]
  ext node
  rw [named?_eq_some, named?_eq_some]
  refine exists_congr fun id => ?_
  rw [resolved]
  refine and_congr_right fun there => ?_
  have leads := leadsTo_of_resolve ((resolveLink_iff linkFree lies).mp there)
  have here := at_of_lies linkFree lies leads below
  rw [beside.node? sound.bounded here (below ▸ apart)]

end Unmoved

end ModuleTree.FileSystem
