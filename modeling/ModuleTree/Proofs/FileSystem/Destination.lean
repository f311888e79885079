import ModuleTree.Proofs.FileSystem.Tree
import ModuleTree.Proofs.Path.Ancestors
/- A destination that takes in what is written below it. It may be missing at first; the
   directories of its path are made then, and what stands there holds only directories and
   files. -/
namespace ModuleTree

/-- A path that names something below a destination. -/
structure Path.Lies (destination p : Path) : Prop where
  absolute : p.isAbsolute = destination.isAbsolute
  names : ∃ names, names ≠ [] ∧ (∀ name ∈ names, Path.IsName name) ∧
    p.segmentNames = destination.segmentNames ++ names

namespace FileSystem

/-- What the names of a path lead to, if anything, holds only directories and files. -/
def Clean (fs : FileSystem) (destination : Path) : Prop :=
  ∀ id, fs.LeadsTo destination destination.segmentNames id → fs.HoldsOnlyFiles id

def Paves (destination : Path) (fs fs' : FileSystem) : Prop :=
  ∃ p : Path, p.OnTheWay destination ∧ fs.makeDirectory p = .ok fs'

/-- A destination that is clean, and is so when directories of its path have been made. -/
def Receives (fs : FileSystem) (destination : Path) : Prop :=
  ∀ fs', Relation.ReflTransGen (Paves destination) fs fs' → fs'.Clean destination

/-- What the names of a destination lead to is like this, and is so when directories of its path
have been made. -/
def Awaits (fs : FileSystem) (destination : Path) (P : FileSystem → NodeId → Prop) : Prop :=
  ∀ fs', Relation.ReflTransGen (Paves destination) fs fs' →
    ∀ id, fs'.LeadsTo destination destination.segmentNames id → P fs' id

/-- What is done to the files for files that have their places below a destination. -/
inductive Puts (destination : Path) (sites : Path → Prop) (fs : FileSystem) :
    FileSystem → Prop where
  | still : Puts destination sites fs fs
  | way {fs' : FileSystem} (paves : fs.Paves destination fs') : Puts destination sites fs fs'
  | between {site p : Path} {names more : List Bytes} {fs' : FileSystem} (wanted : sites site)
      (absolute : p.isAbsolute = destination.isAbsolute) (some : names ≠ []) (further : more ≠ [])
      (below : p.segmentNames = destination.segmentNames ++ names)
      (above : site.segmentNames = p.segmentNames ++ more)
      (made : fs.makeDirectory p = .ok fs') : Puts destination sites fs fs'
  | file {site : Path} {id : NodeId} {fs' : FileSystem} (wanted : sites site)
      (created : fs.createFile site = .ok (id, fs')) : Puts destination sites fs fs'
  | content {site : Path} {id : NodeId} {before : ByteArray} (wanted : sites site)
      (there : fs.resolve site = .ok id) (here : fs.node? id = some (.file before))
      (after : ByteArray) : Puts destination sites fs (fs.setNode id (.file after))

section Gaps

variable {fs : FileSystem} {p destination : Path} {lastLink slashed : Bool} {directory : NodeId}
  {name : Bytes} {node : Node} {front rest names : List Bytes}

theorem stuck_at_gap {left : Nat} {steps : List Segment} {q : Place}
    (missing : fs.enter directory name = .ok none)
    (h : fs.Leads ⟨left, directory, .name name :: steps⟩ q) :
    q = ⟨left, directory, .name name :: steps⟩ := by
  rcases Relation.ReflTransGen.cases_head h with same | ⟨next, step, _⟩
  · exact same.symm
  · cases step with
    | entry enters => cases missing.symm.trans enters
    | link enters => cases missing.symm.trans enters

structure Gap (fs : FileSystem) (p : Path) (names : List Bytes) (directory : NodeId)
    (name : Bytes) : Prop where
  missing : fs.enter directory name = .ok none
  leads : ∃ left steps, fs.Leads ⟨linkLimit, fs.start p, names.map .name⟩
    ⟨left, directory, .name name :: steps⟩ ∧ ∀ s ∈ steps, s = .directoryOnly

theorem gap_of_follow_names (h : fs.follow lastLink linkLimit (fs.start p) (names.map .name) =
    .ok (.gap directory name slashed)) : fs.Gap p names directory name := by
  obtain ⟨left, steps, leads, last, _, parent, entries, open_, proper, missing⟩ := gap_of_follow h
  refine ⟨?_, left, steps, leads, last⟩
  rw [enter_name open_ proper, missing]

theorem not_leadsTo_of_gap {id : NodeId} (gap : fs.Gap p names directory name) :
    ¬fs.LeadsTo p names id := by
  rintro ⟨left, leads⟩
  obtain ⟨left', steps, leads', _⟩ := gap.leads
  rcases leads_linear leads leads' with on | on
  · cases leads_of_end on
  · cases stuck_at_gap gap.missing on

theorem leadsTo_of_gap (gap : fs.Gap p (front ++ rest) directory name) (further : rest ≠ []) :
    ∃ id, fs.LeadsTo p front id := by
  obtain ⟨left, steps, leads, last⟩ := gap.leads
  rw [List.map_append] at leads
  rcases leads_split (p := ⟨linkLimit, fs.start p, front.map .name⟩) leads with
    ⟨⟨budget, current, segments⟩, leads', same⟩ | ⟨budget, id, leads', _⟩
  · cases segments with
    | nil => exact ⟨current, budget, leads'⟩
    | cons s segments =>
      -- The names of the rest would be steps that ask for a directory.
      obtain ⟨n, more, whole⟩ := List.exists_cons_of_ne_nil further
      have after := (List.cons.inj (Place.mk.inj same).2.2).2
      have mem : Segment.name n ∈ steps := by
        rw [after, whole]
        simp
      cases last _ mem
  · exact ⟨id, budget, leads'⟩

end Gaps

section Receives

variable {fs fs' : FileSystem} {destination p : Path}

theorem start_eq (fs : FileSystem) (same : p.isAbsolute = destination.isAbsolute) :
    fs.start p = fs.start destination := by
  rw [start, start, same]

theorem Receives.clean (receives : fs.Receives destination) : fs.Clean destination :=
  receives fs .refl

theorem not_paves_of_present {id : NodeId}
    (there : fs.LeadsTo destination destination.segmentNames id) : ¬fs.Paves destination fs' := by
  rintro ⟨p, way, made⟩
  obtain ⟨directory, name, slashed, found, _⟩ := makeDirectory_ok made
  obtain ⟨more, whole⟩ := way.names
  rw [← whole] at there
  obtain ⟨middle, leads⟩ := leadsTo_front there
  rw [LeadsTo, ← start_eq fs way.absolute] at leads
  exact not_leadsTo_of_gap (gap_of_follow_names found) leads

theorem present_of_lies (lies : destination.Lies p) {id : NodeId} (h : fs.resolve p = .ok id) :
    ∃ top, fs.LeadsTo destination destination.segmentNames top := by
  obtain ⟨names, _, _, whole⟩ := lies.names
  have leads := leadsTo_of_resolve h
  rw [whole] at leads
  obtain ⟨top, there⟩ := leadsTo_front leads
  rw [LeadsTo, start_eq fs lies.absolute] at there
  exact ⟨top, there⟩

theorem makeDirectory_front {names : List Bytes} (absolute : p.isAbsolute = destination.isAbsolute)
    (below : p.segmentNames = destination.segmentNames ++ names) (some : names ≠ [])
    (h : fs.makeDirectory p = .ok fs') :
    ∃ top, fs.LeadsTo destination destination.segmentNames top := by
  obtain ⟨directory, name, slashed, found, _⟩ := makeDirectory_ok h
  rw [below] at found
  obtain ⟨top, leads⟩ := leadsTo_of_gap (gap_of_follow_names found) some
  rw [LeadsTo, start_eq fs absolute] at leads
  exact ⟨top, leads⟩

theorem createFile_front (lies : destination.Lies p) {id : NodeId}
    (h : fs.createFile p = .ok (id, fs')) :
    ∃ top, fs.LeadsTo destination destination.segmentNames top := by
  obtain ⟨names, further, _, below⟩ := lies.names
  unfold LeadsTo
  rw [← start_eq fs lies.absolute]
  obtain ⟨_, _, ⟨directory, name, gap, _⟩ | ⟨leads, _⟩⟩ := createFile_ok h
  · rw [below] at gap
    exact leadsTo_of_gap (gap_of_follow_names gap) further
  · rw [below] at leads
    exact leadsTo_front leads

variable {sites sites' : Path → Prop}

theorem Puts.mono (h : fs.Puts destination sites fs') (more : ∀ site, sites site → sites' site) :
    fs.Puts destination sites' fs' := by
  cases h with
  | still => exact .still
  | way paves => exact .way paves
  | between wanted absolute some further below above made =>
    exact .between (more _ wanted) absolute some further below above made
  | file wanted created => exact .file (more _ wanted) created
  | content wanted there here after => exact .content (more _ wanted) there here after

theorem puts_writeNode {site : Path} {id : NodeId} (wanted : sites site)
    (there : fs.resolve site = .ok id) (bytes : ByteArray) :
    fs.Puts destination sites (fs.writeNode id bytes) := by
  rcases writeNode_cases fs id bytes with ⟨before, here, same⟩ | ⟨_, same⟩
  · rw [same]
    exact .content wanted there here _
  · rw [same]
    exact .still

theorem Puts.changes (h : fs.Puts destination sites fs') : fs' = fs ∨ fs.Changes fs' := by
  cases h with
  | still => exact .inl rfl
  | way paves =>
    obtain ⟨p, _, made⟩ := paves
    exact .inr (makeDirectory_changes made)
  | between _ _ _ _ _ _ made => exact .inr (makeDirectory_changes made)
  | file _ created => exact createFile_changes created
  | content _ _ here after => exact .inr (.write here after)

/-- Apart from the way to it, nothing is done before the destination is there. -/
theorem Puts.present (h : fs.Puts destination sites fs')
    (lies : ∀ site, sites site → destination.Lies site) :
    fs' = fs ∨ fs.Paves destination fs' ∨
      ∃ top, fs.LeadsTo destination destination.segmentNames top := by
  cases h with
  | still => exact .inl rfl
  | way paves => exact .inr (.inl paves)
  | between _ absolute some _ below _ made =>
    exact .inr (.inr (makeDirectory_front absolute below some made))
  | file wanted created => exact .inr (.inr (createFile_front (lies _ wanted) created))
  | content wanted there => exact .inr (.inr (present_of_lies (lies _ wanted) there))

theorem Awaits.puts {P P' : FileSystem → NodeId → Prop} (awaits : fs.Awaits destination P)
    (lies : ∀ site, sites site → destination.Lies site) (h : fs.Puts destination sites fs')
    (weaker : ∀ fs id, P fs id → P' fs id)
    (kept : ∀ id, fs.LeadsTo destination destination.segmentNames id → P fs id → P' fs' id) :
    fs'.Awaits destination P' := by
  rcases h.present lies with same | paves | ⟨top, there⟩
  · subst same
    intro fs'' paved id leads
    exact weaker fs'' id (awaits fs'' paved id leads)
  · intro fs'' paved id leads
    exact weaker fs'' id (awaits fs'' (.head paves paved) id leads)
  · have still := (grows_of_changes h.changes).leadsTo there
    intro fs'' paved id leads
    rcases Relation.ReflTransGen.cases_head paved with same | ⟨_, step, _⟩
    · subst same
      cases leadsTo_unique still leads
      exact kept top there (awaits fs .refl top there)
    · exact absurd step (not_paves_of_present still)

theorem Awaits.linkFree_puts (awaits : fs.Awaits destination LinkFree)
    (lies : ∀ site, sites site → destination.Lies site) (h : fs.Puts destination sites fs') :
    fs'.Awaits destination LinkFree := by
  refine awaits.puts lies h (fun _ _ => id) fun id _ linkFree => ?_
  rcases h.changes with same | changes
  · exact same ▸ linkFree
  · exact changes.linkFree linkFree

theorem Receives.puts (receives : fs.Receives destination)
    (lies : ∀ site, sites site → destination.Lies site) (h : fs.Puts destination sites fs') :
    fs'.Receives destination := by
  refine Awaits.puts (P := HoldsOnlyFiles) receives lies h (fun _ _ => id) fun id _ holds => ?_
  rcases h.changes with same | changes
  · exact same ▸ holds
  · exact changes.holdsOnlyFiles holds

theorem Receives.linkFree (receives : fs.Receives destination) :
    fs.Awaits destination LinkFree :=
  fun fs' paved id leads => (receives fs' paved id leads).linkFree

end Receives

section Below

variable {fs : FileSystem} {destination p q : Path} {id : NodeId}

structure Ready (fs : FileSystem) (destination : Path) : Prop where
  tree : fs.Tree
  receives : fs.Receives destination

theorem Ready.puts {fs' : FileSystem} {sites : Path → Prop} (ready : fs.Ready destination)
    (lies : ∀ site, sites site → destination.Lies site) (h : fs.Puts destination sites fs') :
    fs'.Ready destination := by
  refine ⟨?_, ready.receives.puts lies h⟩
  rcases h.changes with same | changes
  · exact same ▸ ready.tree
  · exact changes.tree ready.tree

def named? (fs : FileSystem) (p : Path) : Option Node := (fs.resolveLink p).toOption.bind fs.node?

theorem named?_eq_some {node : Node} :
    fs.named? p = some node ↔ ∃ id, fs.resolveLink p = .ok id ∧ fs.node? id = some node := by
  unfold named?
  cases fs.resolveLink p <;> simp [Except.toOption]

def At (fs : FileSystem) (destination : Path) (names : List Bytes) (id : NodeId) : Prop :=
  ∃ top, fs.LeadsTo destination destination.segmentNames top ∧ fs.Descends top names id

theorem mem_of_at {fs : FileSystem} {destination : Path} {kept : List NodeId} {top id : NodeId}
    {names : List Bytes} (there : fs.resolve destination = .ok top) (first : top ∈ kept)
    (closed : ∀ id ∈ kept, ∀ entry ∈ fs.entries id, entry.2 ∈ kept)
    (h : fs.At destination names id) : id ∈ kept := by
  obtain ⟨top', leads, descends⟩ := h
  cases leadsTo_unique (leadsTo_of_resolve there) leads
  induction descends with
  | nil => exact first
  | concat _ entry ih => exact closed _ ih _ entry

section LinkFree

variable
  (linkFree : ∀ top, fs.LeadsTo destination destination.segmentNames top → fs.LinkFree top)

include linkFree

theorem at_of_leadsTo {names : List Bytes} (valid : ∀ name ∈ names, Path.IsName name)
    (leads : fs.LeadsTo destination (destination.segmentNames ++ names) id) :
    fs.At destination names id := by
  obtain ⟨left, left', top, toTop, down⟩ := leadsTo_append.mp leads
  have there : fs.LeadsTo destination destination.segmentNames top := ⟨left, toTop⟩
  exact ⟨top, there, descends_of_leads (linkFree top there) valid down⟩

theorem at_of_lies (lies : destination.Lies p) (leads : fs.LeadsTo p p.segmentNames id)
    {names : List Bytes} (below : p.segmentNames = destination.segmentNames ++ names) :
    fs.At destination names id := by
  obtain ⟨names', _, valid, whole⟩ := lies.names
  rw [below, List.append_cancel_left_eq] at whole
  rw [below, LeadsTo, start_eq fs lies.absolute] at leads
  exact at_of_leadsTo linkFree (whole ▸ valid) leads

theorem leads_of_lies (lies : destination.Lies p) (leads : fs.LeadsTo p p.segmentNames id) :
    ∃ middle front name, p.segmentNames = destination.segmentNames ++ (front ++ [name]) ∧
      fs.At destination front middle ∧ (name, id) ∈ fs.entries middle ∧
      ∃ left, fs.Leads ⟨linkLimit, fs.start p,
          (destination.segmentNames ++ front).map .name⟩ ⟨left, middle, []⟩ ∧
        fs.enter middle name = .ok (some id) ∧ ∀ target, fs.node? id ≠ some (.link target) := by
  obtain ⟨names, further, valid, whole⟩ := lies.names
  obtain ⟨front, name, last⟩ := (List.eq_nil_or_concat names).resolve_left further
  rw [List.concat_eq_append] at last
  subst last
  have early : ∀ n ∈ front, Path.IsName n := fun n mem => valid n (List.mem_append_left _ mem)
  rw [whole, ← List.append_assoc] at leads
  obtain ⟨left, left', middle, first, second⟩ := leadsTo_append.mp leads
  have way : fs.LeadsTo destination (destination.segmentNames ++ front) middle := by
    rw [LeadsTo, ← start_eq fs lies.absolute]
    exact ⟨left, first⟩
  obtain ⟨top, there, above⟩ := at_of_leadsTo linkFree early way
  obtain ⟨entry, enters, plain⟩ :=
    entry_of_leads (linkFree top there) above (valid name (by simp)) second
  exact ⟨middle, front, name, whole, ⟨top, there, above⟩, entry, left, first, enters, plain⟩

theorem plain_of_leads (lies : destination.Lies p) {left : Nat} {current : NodeId} {name : Bytes}
    (leads : fs.Leads ⟨linkLimit, fs.start p, p.segmentNames.map .name⟩
      ⟨left, current, [.name name]⟩)
    (enters : fs.enter current name = .ok (some id)) (target : Path) :
    fs.node? id ≠ some (.link target) := by
  obtain ⟨names, further, valid, whole⟩ := lies.names
  rw [whole, start_eq fs lies.absolute, List.map_append] at leads
  obtain ⟨budget, top, toTop, onward⟩ : ∃ budget top,
      fs.Leads ⟨linkLimit, fs.start destination, destination.segmentNames.map .name⟩
        ⟨budget, top, []⟩ ∧
      fs.Leads ⟨budget, top, names.map .name⟩ ⟨left, current, [.name name]⟩ := by
    rcases leads_split (p := ⟨_, _, destination.segmentNames.map .name⟩) leads with
      ⟨⟨budget, middle, segments⟩, toTop, same⟩ | split
    · obtain ⟨rfl, rfl, rest⟩ := Place.mk.inj same
      -- The name that is left is the last one of the path.
      obtain ⟨n, more, cons⟩ := List.exists_cons_of_ne_nil further
      cases segments with
      | nil => exact ⟨_, _, toTop, rest ▸ .refl⟩
      | cons s segments => simp [cons] at rest
    · exact split
  have free := linkFree top ⟨budget, toTop⟩
  obtain ⟨early, rest, split, last, above⟩ := along_of_leads free valid onward
  obtain ⟨n, one, same⟩ := List.map_eq_singleton_iff.mp last.symm
  cases same
  have proper : Path.IsName name := valid name (by simp [split, one])
  exact free _ _ above _ (entry_of_enter proper enters) target

theorem resolveLink_iff (lies : destination.Lies p) :
    fs.resolveLink p = .ok id ↔ fs.resolve p = .ok id := by
  constructor
  · intro h
    obtain ⟨named, found⟩ := resolveWith_iff.mp h
    obtain ⟨q, leads, arrives⟩ := arrives_of_followed found
    apply resolveWith_iff.mpr ⟨named, follow_node_iff.mpr ?_⟩
    generalize ends : Spot.node id = there at arrives
    cases arrives with
    | node =>
      cases ends
      exact ⟨_, leads⟩
    | gap => cases ends
    | link _ enters link =>
      cases ends
      rw [segments_eq] at leads
      by_cases slashed : p.endsInSlash
      · rw [if_pos slashed] at leads
        rcases leads_split (p := ⟨_, _, p.segmentNames.map .name⟩) leads with
          ⟨⟨_, _, segments⟩, _, same⟩ | ⟨_, _, _, onward⟩
        · have last := congrArg List.getLast? (Place.mk.inj same).2.2
          simp at last
        · rcases Relation.ReflTransGen.cases_head onward with same | ⟨_, step, further⟩
          · cases same
          · cases step
            cases leads_of_end further
      · rw [if_neg slashed, List.append_nil] at leads
        exact absurd link (plain_of_leads linkFree lies leads enters _)
  · intro h
    obtain ⟨named, leads, slashed⟩ := resolve_iff.mp h
    obtain ⟨middle, front, name, whole, _, _, left, first, enters, plain⟩ :=
      leads_of_lies linkFree lies leads
    let tail : List Segment := if p.endsInSlash then [.directoryOnly] else []
    have segments : p.segments =
        (destination.segmentNames ++ front).map .name ++ ([.name name] ++ tail) := by
      rw [segments_eq, whole]
      simp [tail]
    have onward : fs.follow false linkLimit (fs.start p)
        ((destination.segmentNames ++ front).map .name ++ ([.name name] ++ tail)) =
          fs.follow false left middle ([.name name] ++ tail) :=
      followed_of_leads first _ (.inr (by simp))
    have ends : fs.follow false left id tail = .ok (.node id) := by
      unfold tail
      split
      · rename_i slash
        rw [follow, if_pos (slashed slash), follow]
      · rw [follow]
    apply resolveWith_iff.mpr ⟨named, ?_⟩
    rw [segments, onward, List.singleton_append, follow_entry enters plain, ends]

end LinkFree

section Once

variable
  (once : ∀ top, fs.LeadsTo destination destination.segmentNames top → fs.NamesOnce top)
  (ranked : ∃ depth : NodeId → Nat, ∀ id, ∀ entry ∈ fs.entries id, depth id < depth entry.2)

include once ranked

theorem at_once {names names' : List Bytes} (first : fs.At destination names id)
    (second : fs.At destination names' id) : names = names' := by
  obtain ⟨top, there, down⟩ := first
  obtain ⟨top', there', down'⟩ := second
  cases leadsTo_unique there there'
  exact descends_once (once top there) ranked down down'

theorem segmentNames_once
    (linkFree : ∀ top, fs.LeadsTo destination destination.segmentNames top → fs.LinkFree top)
    (lies : destination.Lies p) (lies' : destination.Lies q)
    (leads : fs.LeadsTo p p.segmentNames id) (leads' : fs.LeadsTo q q.segmentNames id) :
    p.segmentNames = q.segmentNames := by
  obtain ⟨names, _, _, whole⟩ := lies.names
  obtain ⟨names', _, _, whole'⟩ := lies'.names
  have one := at_once once ranked (at_of_lies linkFree lies leads whole)
    (at_of_lies linkFree lies' leads' whole')
  rw [whole, whole', one]

end Once

theorem at_unique (tree : fs.Tree) {names names' : List Bytes} (first : fs.At destination names id)
    (second : fs.At destination names' id) : names = names' :=
  at_once (fun top _ => tree.once.namesOnce top) tree.ranked first second

theorem segmentNames_unique (ready : fs.Ready destination) (lies : destination.Lies p)
    (lies' : destination.Lies q) (leads : fs.LeadsTo p p.segmentNames id)
    (leads' : fs.LeadsTo q q.segmentNames id) : p.segmentNames = q.segmentNames :=
  segmentNames_once (fun top _ => ready.tree.once.namesOnce top) ready.tree.ranked
    (ready.receives.linkFree fs .refl) lies lies' leads leads'

theorem file_or_directory_of_lies (receives : fs.Receives destination) (lies : destination.Lies p)
    (leads : fs.LeadsTo p p.segmentNames id) :
    fs.isDirectoryNode id ∨ ∃ content, fs.node? id = some (.file content) := by
  obtain ⟨middle, front, name, _, ⟨top, there, above⟩, entry, _⟩ :=
    leads_of_lies (receives.linkFree fs .refl) lies leads
  exact receives.clean top there front middle above _ entry

end Below

end FileSystem

end ModuleTree
