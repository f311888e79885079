import Mathlib.Data.List.Lemmas
import ModuleTree.Proofs.Dictionary
import ModuleTree.Proofs.FileSystem.Route
/- File systems that grow. Directories get new names and files get new content, and nothing
   else changes, so whatever a path led to it leads to still. -/
namespace ModuleTree.FileSystem

structure Grows (fs fs' : FileSystem) : Prop where
  root : fs'.root = fs.root
  home : fs'.home = fs.home
  locked : fs'.locked = fs.locked
  file : ∀ {id content}, fs.node? id = some (.file content) →
    ∃ content', fs'.node? id = some (.file content')
  directory : ∀ {id parent entries}, fs.node? id = some (.directory parent entries) →
    ∃ entries', fs'.node? id = some (.directory parent entries') ∧
      ∀ {name child}, entries.lookup name = some child → entries'.lookup name = some child
  link : ∀ {id target}, fs'.node? id = some (.link target) ↔ fs.node? id = some (.link target)

section Enter

variable {fs : FileSystem} {current id : NodeId} {name : Bytes}

structure Open (fs : FileSystem) (id parent : NodeId) (entries : List (Bytes × NodeId)) :
    Prop where
  node : fs.node? id = some (.directory parent entries)
  unlocked : fs.isLocked id = false

structure Proper (name : Bytes) : Prop where
  notHere : name ≠ [Path.dot]
  notUp : name ≠ [Path.dot, Path.dot]
  short : name.length ≤ nameLimit

theorem enter_here {parent : NodeId} {entries : List (Bytes × NodeId)}
    (open_ : fs.Open current parent entries) :
    fs.enter current [Path.dot] = .ok (some current) := by
  simp [enter, open_.node, open_.unlocked]

theorem enter_up {parent : NodeId} {entries : List (Bytes × NodeId)}
    (open_ : fs.Open current parent entries) :
    fs.enter current [Path.dot, Path.dot] = .ok (some parent) := by
  simp [enter, open_.node, open_.unlocked]

theorem enter_name {parent : NodeId} {entries : List (Bytes × NodeId)}
    (open_ : fs.Open current parent entries) (proper : Proper name) :
    fs.enter current name = .ok (entries.lookup name) := by
  simp only [enter, open_.node, open_.unlocked]
  rw [if_neg (by simp), if_neg proper.notHere, if_neg proper.notUp,
    if_neg (Nat.not_lt.mpr proper.short)]

inductive Steps (current parent : NodeId) (entries : List (Bytes × NodeId)) :
    Bytes → Option NodeId → Prop where
  | here : Steps current parent entries [Path.dot] (some current)
  | up : Steps current parent entries [Path.dot, Path.dot] (some parent)
  | name {name : Bytes} (proper : Proper name) :
      Steps current parent entries name (entries.lookup name)

theorem Steps.proper_of_none {parent : NodeId} {entries : List (Bytes × NodeId)}
    {found : Option NodeId} (h : Steps current parent entries name found) (none : found = none) :
    Proper name ∧ entries.lookup name = .none := by
  cases h with
  | here => cases none
  | up => cases none
  | name proper => exact ⟨proper, none⟩

theorem steps_of_enter {found : Option NodeId} (h : fs.enter current name = .ok found) :
    ∃ parent entries, fs.Open current parent entries ∧
      Steps current parent entries name found := by
  cases node : fs.node? current with
  | none => simp [enter, node] at h
  | some found =>
    cases found with
    | directory parent entries =>
      have unlocked : fs.isLocked current = false := by
        cases locked : fs.isLocked current with
        | false => rfl
        | true => simp [enter, node, locked] at h
      have open_ : fs.Open current parent entries := ⟨node, unlocked⟩
      refine ⟨parent, entries, open_, ?_⟩
      by_cases here : name = [Path.dot]
      · subst here
        rw [enter_here open_] at h
        cases h
        exact .here
      · by_cases up : name = [Path.dot, Path.dot]
        · subst up
          rw [enter_up open_] at h
          cases h
          exact .up
        · by_cases long : nameLimit < name.length
          · simp [enter, node, unlocked, here, up, long] at h
          · have proper : Proper name := ⟨here, up, Nat.not_lt.mp long⟩
            rw [enter_name open_ proper] at h
            cases h
            exact .name proper
    | _ => simp [enter, node] at h

end Enter

section Grows

variable {fs fs' fs'' : FileSystem}

theorem grows_refl (fs : FileSystem) : fs.Grows fs where
  root := rfl
  home := rfl
  locked := rfl
  file h := ⟨_, h⟩
  directory h := ⟨_, h, id⟩
  link := Iff.rfl

theorem Grows.trans (first : fs.Grows fs') (second : fs'.Grows fs'') : fs.Grows fs'' where
  root := second.root.trans first.root
  home := second.home.trans first.home
  locked := second.locked.trans first.locked
  file h := by
    obtain ⟨_, there⟩ := first.file h
    exact second.file there
  directory h := by
    obtain ⟨entries', there, kept⟩ := first.directory h
    obtain ⟨entries'', there', kept'⟩ := second.directory there
    exact ⟨entries'', there', fun found => kept' (kept found)⟩
  link := second.link.trans first.link

theorem Grows.start (grows : fs.Grows fs') (p : Path) : fs'.start p = fs.start p := by
  rw [FileSystem.start, FileSystem.start, grows.root, grows.home]

theorem Grows.isDirectoryNode {id : NodeId} (grows : fs.Grows fs')
    (h : fs.isDirectoryNode id) : fs'.isDirectoryNode id := by
  unfold FileSystem.isDirectoryNode at h
  split at h
  · rename_i parent entries node
    obtain ⟨entries', there, _⟩ := grows.directory node
    simp [FileSystem.isDirectoryNode, there]
  · cases h

theorem Grows.enter {current id : NodeId} {name : Bytes} (grows : fs.Grows fs')
    (h : fs.enter current name = .ok (some id)) : fs'.enter current name = .ok (some id) := by
  obtain ⟨parent, entries, open_, steps⟩ := steps_of_enter h
  obtain ⟨entries', there, kept⟩ := grows.directory open_.node
  have unlocked : fs'.isLocked current = false := by
    rw [isLocked, grows.locked]
    exact open_.unlocked
  have open' : fs'.Open current parent entries' := ⟨there, unlocked⟩
  generalize found : some id = result at steps
  cases steps with
  | here =>
    cases found
    exact enter_here open'
  | up =>
    cases found
    exact enter_up open'
  | name proper =>
    rw [enter_name open' proper, kept found.symm, found]

theorem Grows.goes {p q : Place} (grows : fs.Grows fs') (h : fs.Goes p q) : fs'.Goes p q := by
  cases h with
  | directory here => exact .directory (grows.isDirectoryNode here)
  | entry enters plain =>
    exact .entry (grows.enter enters) fun target link => plain target (grows.link.mp link)
  | link enters link =>
    rw [← grows.root]
    exact .link (grows.enter enters) (grows.link.mpr link)

theorem Grows.leads {p q : Place} (grows : fs.Grows fs') (h : fs.Leads p q) : fs'.Leads p q :=
  Relation.ReflTransGen.mono (fun _ _ step => grows.goes step) p q h

theorem Grows.leadsTo {p : Path} {id : NodeId} {names : List Bytes} (grows : fs.Grows fs') (h : fs.LeadsTo p names id) :
    fs'.LeadsTo p names id := by
  obtain ⟨left, leads⟩ := h
  unfold LeadsTo
  rw [grows.start]
  exact ⟨left, grows.leads leads⟩

theorem Grows.resolve {p : Path} {id : NodeId} (grows : fs.Grows fs') (h : fs.resolve p = .ok id) :
    fs'.resolve p = .ok id := by
  obtain ⟨named, leads, directory⟩ := resolve_iff.mp h
  exact resolve_iff.mpr ⟨named, grows.leadsTo leads, fun slashed =>
    grows.isDirectoryNode (directory slashed)⟩

end Grows

section Changes

variable {fs : FileSystem} {id directory parent : NodeId} {name : Bytes} {node : Node}
  {entries : List (Bytes × NodeId)}

theorem node?_setNode (fs : FileSystem) (id other : NodeId) (node : Node) :
    (fs.setNode id node).node? other =
      if id = other ∧ id < fs.nodes.size then some node else fs.node? other := by
  unfold setNode node?
  rw [Array.getElem?_setIfInBounds]
  split
  · rename_i same
    subst same
    split
    · simp [*]
    · rename_i out
      simp [out]
  · rename_i other_
    simp [other_]

theorem lt_size_of_node? {node : Node} (h : fs.node? id = some node) : id < fs.nodes.size := by
  unfold node? at h
  exact (Array.getElem?_eq_some_iff.mp h).1

theorem lookup_putEntry (name : Bytes) (id : NodeId) (entries : List (Bytes × NodeId))
    (other : Bytes) : (putEntry name id entries).lookup other =
      if other = name then some id else entries.lookup other := by
  induction entries with
  | nil => simp only [putEntry, Dictionary.lookup_cons_ite]
  | cons entry rest ih =>
    unfold putEntry
    split
    · simp only [Dictionary.lookup_cons_ite]
    · rename_i notBefore
      split
      · rename_i before
        by_cases here : other = entry.1
        · have differ : other ≠ name := by
            intro same
            rw [← here, same] at before
            exact List.lt_irrefl name before
          simp only [Dictionary.lookup_cons_ite, if_pos here, if_neg differ]
        · simp only [Dictionary.lookup_cons_ite, if_neg here, ih]
      · rename_i notAfter
        have same := List.le_antisymm (List.not_lt.mp notAfter) (List.not_lt.mp notBefore)
        by_cases here : other = name
        · simp only [Dictionary.lookup_cons_ite, if_pos here]
        · simp only [Dictionary.lookup_cons_ite, ← same, if_neg here]

theorem node?_addNode (here : fs.node? directory = some (.directory parent entries))
    (name : Bytes) (node : Node) (other : NodeId) :
    (fs.addNode directory name node).2.node? other =
      if other = directory then some (.directory parent (putEntry name fs.nodes.size entries))
      else if other = fs.nodes.size then some node else fs.node? other := by
  have inside := lt_size_of_node? here
  simp only [addNode, here, node?_setNode, Array.size_push]
  by_cases same : other = directory
  · subst same
    simp [Nat.lt_succ_of_lt inside]
  · rw [if_neg same, if_neg (fun h => same h.1.symm)]
    exact Array.getElem?_push

theorem grows_addNode (here : fs.node? directory = some (.directory parent entries))
    (missing : entries.lookup name = none) (plain : ∀ target, node ≠ .link target) :
    fs.Grows (fs.addNode directory name node).2 := by
  have inside := lt_size_of_node? here
  have fixed : ∀ {other found}, fs.node? other = some found → other ≠ directory →
      (fs.addNode directory name node).2.node? other = some found := by
    intro other found there differ
    have small := lt_size_of_node? there
    rw [node?_addNode here, if_neg differ, if_neg (Nat.ne_of_lt small), there]
  have grown : (fs.addNode directory name node).2.node? directory =
      some (.directory parent (putEntry name fs.nodes.size entries)) := by
    rw [node?_addNode here, if_pos rfl]
  constructor
  · simp [addNode, here, setNode]
  · simp [addNode, here, setNode]
  · simp [addNode, here, setNode]
  · intro other content there
    refine ⟨content, fixed there ?_⟩
    intro same
    rw [same, here] at there
    cases there
  · intro other parent' entries' there
    by_cases same : other = directory
    · subst same
      cases here.symm.trans there
      refine ⟨_, grown, fun {key child} found => ?_⟩
      have differ : key ≠ name := by
        intro same
        simp [same, missing] at found
      rw [lookup_putEntry, if_neg differ]
      exact found
    · exact ⟨entries', fixed there same, id⟩
  · intro other target
    by_cases same : other = directory
    · subst same
      rw [node?_addNode here, if_pos rfl, here]
      simp
    · rw [node?_addNode here, if_neg same]
      by_cases new : other = fs.nodes.size
      · rw [if_pos new, new]
        constructor
        · intro link
          exact absurd (Option.some.inj link) (plain target)
        · intro link
          exact absurd (lt_size_of_node? link) (Nat.lt_irrefl _)
      · rw [if_neg new]

theorem grows_setFile {content : ByteArray} (here : fs.node? id = some (.file content))
    (content' : ByteArray) : fs.Grows (fs.setNode id (.file content')) := by
  have inside := lt_size_of_node? here
  have fixed : ∀ {other}, other ≠ id →
      (fs.setNode id (.file content')).node? other = fs.node? other := by
    intro other differ
    rw [node?_setNode, if_neg fun h => differ h.1.symm]
  have changed : (fs.setNode id (.file content')).node? id = some (.file content') := by
    rw [node?_setNode, if_pos ⟨rfl, inside⟩]
  refine ⟨rfl, rfl, rfl, ?_, ?_, ?_⟩
  · intro other content there
    by_cases same : other = id
    · exact ⟨content', same ▸ changed⟩
    · exact ⟨content, (fixed same).trans there⟩
  · intro other parent entries there
    have differ : other ≠ id := by
      intro same
      rw [same, here] at there
      cases there
    exact ⟨entries, (fixed differ).trans there, fun found => found⟩
  · intro other target
    by_cases same : other = id
    · rw [same, changed, here]
      simp
    · rw [fixed same]

end Changes

end ModuleTree.FileSystem
