import ModuleTree.Proofs.FileSystem.Destination
/- Destinations that lead down only. When such a destination is missing and comes to be, it is
   new and has nothing in it, so it is enough that it is clean or missing at first. -/
namespace ModuleTree.FileSystem

def up : Bytes := [Path.dot, Path.dot]

section NewNode

variable {fs : FileSystem} {directory parent : NodeId} {name : Bytes} {node : Node}
  {entries : List (Bytes × NodeId)}

theorem enter_addNode (here : fs.node? directory = some (.directory parent entries))
    {current id : NodeId} {key : Bytes} (old : current < fs.nodes.size)
    (enters : (fs.addNode directory name node).2.enter current key = .ok (some id)) :
    fs.enter current key = .ok (some id) ∨
      current = directory ∧ key = name ∧ id = fs.nodes.size := by
  have unlocked {other : NodeId} :
      (fs.addNode directory name node).2.isLocked other = fs.isLocked other := by
    simp [isLocked, addNode, here, setNode]
  by_cases same : current = directory
  · subst same
    obtain ⟨parent', entries', open_, steps⟩ := steps_of_enter enters
    have grown := open_.node
    rw [node?_addNode here, if_pos rfl] at grown
    cases grown
    have before : fs.Open current parent entries := ⟨here, unlocked ▸ open_.unlocked⟩
    generalize found : some id = result at steps
    cases steps with
    | here =>
      cases found
      exact .inl (enter_here before)
    | up =>
      cases found
      exact .inl (enter_up before)
    | name proper =>
      rw [lookup_putEntry] at found
      by_cases new : key = name
      · rw [if_pos new] at found
        exact .inr ⟨rfl, new, Option.some.inj found⟩
      · rw [if_neg new] at found
        exact .inl (by rw [enter_name before proper, lookup_putEntry, if_neg new])
  · have fixed : (fs.addNode directory name node).2.node? current = fs.node? current := by
      rw [node?_addNode here, if_neg same, if_neg (Nat.ne_of_lt old)]
    simp only [enter, fixed, unlocked] at enters ⊢
    exact .inl enters

theorem goes_addNode (bounded : fs.Bounded)
    (here : fs.node? directory = some (.directory parent entries)) (blank : Blank directory node)
    (missing : entries.lookup name = none) {p q : Place} (old : p.current < fs.nodes.size)
    (step : (fs.addNode directory name node).2.Goes p q) :
    fs.Goes p q ∧ q.current < fs.nodes.size ∨
      ∃ left rest, p = ⟨left, directory, .name name :: rest⟩ ∧ q = ⟨left, fs.nodes.size, rest⟩ := by
  have grows := grows_addNode here missing blank.plain
  have link_iff {id : NodeId} {target : Path} :
      (fs.addNode directory name node).2.node? id = some (.link target) ↔
        fs.node? id = some (.link target) := grows.link
  cases step with
  | @directory budget current rest directory_ =>
    refine .inl ⟨.directory ?_, old⟩
    unfold isDirectoryNode at directory_ ⊢
    by_cases same : current = directory
    · rw [same, here]
    · rwa [node?_addNode here, if_neg same, if_neg (Nat.ne_of_lt old)] at directory_
  | entry enters plain =>
    rcases enter_addNode here old enters with before | ⟨rfl, rfl, rfl⟩
    · exact .inl ⟨.entry before fun target link => plain target (link_iff.mpr link),
        bounded.enter before⟩
    · exact .inr ⟨_, _, rfl, rfl⟩
  | @link budget current id key rest target enters link =>
    rcases enter_addNode here old enters with before | ⟨rfl, rfl, rfl⟩
    · rw [grows.root]
      refine .inl ⟨.link before (link_iff.mp link), ?_⟩
      dsimp only
      split
      · exact bounded.root
      · exact old
    · have new := lt_size_of_node? (link_iff.mp link)
      exact absurd new (Nat.lt_irrefl _)

theorem leads_before_addNode (bounded : fs.Bounded)
    (here : fs.node? directory = some (.directory parent entries)) (blank : Blank directory node)
    (missing : entries.lookup name = none) {p q : Place} (old : p.current < fs.nodes.size)
    (h : (fs.addNode directory name node).2.Leads p q) :
    fs.Leads p q ∨ ∃ left rest, fs.Leads p ⟨left, directory, .name name :: rest⟩ ∧
      (fs.addNode directory name node).2.Leads ⟨left, fs.nodes.size, rest⟩ q := by
  induction h using Relation.ReflTransGen.head_induction_on with
  | refl => exact .inl .refl
  | head step rest ih =>
    rcases goes_addNode bounded here blank missing old step with
      ⟨before, old'⟩ | ⟨left, rest', rfl, rfl⟩
    · rcases ih old' with leads | ⟨left, rest', leads, onward⟩
      · exact .inl (.head before leads)
      · exact .inr ⟨left, rest', .head before leads, onward⟩
    · exact .inr ⟨left, rest', .refl, rest⟩

theorem leads_in_empty {fs : FileSystem} {id top above : NodeId} {left left' : Nat}
    {rest : List Segment} (empty : fs.node? top = some (.directory above []))
    (level : ∀ s ∈ rest, s ≠ .name up) (h : fs.Leads ⟨left, top, rest⟩ ⟨left', id, []⟩) :
    id = top := by
  induction rest with
  | nil =>
    cases leads_of_end h
    rfl
  | cons s rest ih =>
    have later : ∀ s ∈ rest, s ≠ .name up := fun s mem => level s (List.mem_cons_of_mem _ mem)
    have stays {next : NodeId} {name : Bytes} (enters : fs.enter top name = .ok (some next))
        (level : name ≠ up) : next = top := by
      obtain ⟨parent, entries, open_, steps⟩ := steps_of_enter enters
      cases empty.symm.trans open_.node
      generalize found : some next = result at steps
      cases steps with
      | here => exact Option.some.inj found
      | up => exact absurd rfl level
      | name => cases found
    rcases Relation.ReflTransGen.cases_head h with same | ⟨next, step, onward⟩
    · cases same
    · cases step with
      | directory => exact ih later onward
      | @entry _ _ next name _ enters =>
        have level_ : name ≠ up := by
          intro same
          exact level (.name name) List.mem_cons_self (same ▸ rfl)
        cases stays enters level_
        exact ih later onward
      | @link _ _ next name _ target enters link =>
        have level_ : name ≠ up := by
          intro same
          exact level (.name name) List.mem_cons_self (same ▸ rfl)
        cases stays enters level_
        rw [empty] at link
        cases link

end NewNode

section Level

variable {fs fs' : FileSystem} {destination p : Path}

theorem new_of_leadsTo {directory parent : NodeId} {name : Bytes} {more : List Bytes}
    {entries : List (Bytes × NodeId)} (bounded : fs.Bounded)
    (level : up ∉ destination.segmentNames)
    (absolute : p.isAbsolute = destination.isAbsolute)
    (here : fs.node? directory = some (.directory parent entries))
    (missing : entries.lookup name = none) (gap : fs.Gap p p.segmentNames directory name)
    (whole : destination.segmentNames = p.segmentNames ++ more)
    (absent : ¬∃ id, fs.LeadsTo destination destination.segmentNames id) {id : NodeId}
    (leads : (fs.addNode directory name (.directory directory [])).2.LeadsTo destination
      destination.segmentNames id) : id = fs.nodes.size := by
  have blank : Blank directory (.directory directory []) := .directory
  have grows := grows_addNode here missing blank.plain
  have inside := lt_size_of_node? here
  obtain ⟨left', leads⟩ := leads
  rw [grows.start] at leads
  rcases leads_before_addNode bounded here blank missing (bounded.start destination) leads with
    before | ⟨left, rest, before, onward⟩
  · exact absurd ⟨id, left', before⟩ absent
  · -- Both ways end at the gap, so what is left of them is the same.
    obtain ⟨left₂, steps, way, last⟩ := gap.leads
    have way := leads_more way (more.map .name)
    rw [start_eq fs absolute] at way
    simp only [Place.more, ← List.map_append, ← whole] at way
    have rest_ : rest = steps ++ more.map .name := by
      rcases leads_linear before way with on | on
      · cases stuck_at_gap gap.missing on
        rfl
      · cases stuck_at_gap gap.missing on
        rfl
    have new : (fs.addNode directory name (.directory directory [])).2.node? fs.nodes.size =
        some (.directory directory []) := by
      rw [node?_addNode here, if_neg (Nat.ne_of_gt inside), if_pos rfl]
    have onLevel : ∀ s ∈ rest, s ≠ .name up := by
      intro s mem climbs
      rw [rest_, climbs, List.mem_append] at mem
      rcases mem with early | late
      · cases last _ early
      · obtain ⟨n, there, same⟩ := List.mem_map.mp late
        cases same
        exact level (whole ▸ List.mem_append_right _ there)
    exact leads_in_empty new onLevel onward

theorem holdsOnlyFiles_of_empty {top : NodeId} (empty : fs.entries top = []) :
    fs.HoldsOnlyFiles top := by
  intro names id down entry mem
  have none := names_of_empty empty (.concat down mem)
  simp at none

theorem empty_of_paves (bounded : fs.Bounded) (level : up ∉ destination.segmentNames)
    (paves : fs.Paves destination fs') {id : NodeId}
    (leads : fs'.LeadsTo destination destination.segmentNames id) :
    ∃ above, fs'.node? id = some (.directory above []) := by
  obtain ⟨p, way, made⟩ := paves
  have absent : ¬∃ id, fs.LeadsTo destination destination.segmentNames id := by
    rintro ⟨id, there⟩
    exact not_paves_of_present there ⟨p, way, made⟩
  obtain ⟨directory, name, slashed, found, same⟩ := makeDirectory_ok made
  have gap := gap_of_follow_names found
  obtain ⟨_, _, _, _, _, parent, entries, open_, proper, missing⟩ := gap_of_follow found
  have inside := lt_size_of_node? open_.node
  obtain ⟨more, whole⟩ := way.names
  subst same
  rw [new_of_leadsTo bounded level way.absolute open_.node missing gap whole.symm absent leads]
  exact ⟨directory, by rw [node?_addNode open_.node, if_neg (Nat.ne_of_gt inside), if_pos rfl]⟩

theorem bounded_of_paved (bounded : fs.Bounded)
    (paved : Relation.ReflTransGen (Paves destination) fs fs') : fs'.Bounded := by
  induction paved with
  | refl => exact bounded
  | tail _ step ih =>
    obtain ⟨p, _, made⟩ := step
    obtain ⟨directory, name, slashed, found, same⟩ := makeDirectory_ok made
    obtain ⟨_, _, _, _, _, parent, entries, open_, _⟩ := gap_of_follow found
    exact same ▸ bounded_addNode ih open_.node .directory

/-- Without `..` in its path, a destination only has to be as wanted, or missing, and so has an
empty directory. -/
theorem awaits_of_level {P : FileSystem → NodeId → Prop} (bounded : fs.Bounded)
    (level : up ∉ destination.segmentNames)
    (present : ∀ id, fs.LeadsTo destination destination.segmentNames id → P fs id)
    (empty : ∀ fs id, fs.entries id = [] → P fs id) :
    fs.Awaits destination P := by
  intro fs' paved id leads
  rcases Relation.ReflTransGen.cases_tail paved with same | ⟨middle, before, step⟩
  · subst same
    exact present id leads
  · obtain ⟨above, new⟩ := empty_of_paves (bounded_of_paved bounded before) level step leads
    exact empty fs' id (entries_eq new)

theorem receives_of_level (tree : fs.Tree) (clean : fs.Clean destination)
    (level : up ∉ destination.segmentNames) : fs.Receives destination :=
  awaits_of_level (P := HoldsOnlyFiles) tree.bounded level clean fun _ _ => holdsOnlyFiles_of_empty

end Level

end ModuleTree.FileSystem
