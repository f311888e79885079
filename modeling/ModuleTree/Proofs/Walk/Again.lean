import Mathlib
import ModuleTree.Proofs.FileSystem.Frame
import ModuleTree.Proofs.FileSystem.Numbered
import ModuleTree.Proofs.Walk.FirstOfEach
import ModuleTree.Proofs.Walk.Hidden
import ModuleTree.Proofs.Walk.Overlap
import ModuleTree.Proofs.Walk.Visible
/- A walk over roots after something has been put below a destination. Where the walk can see
   nothing of what is new, and no failure has ended it before, it finds the same files again. -/
namespace ModuleTree

namespace FileSystem

variable {fs fs' : FileSystem} {destination : Path} {sites : Path → Prop} {id top : NodeId}
  {names : List Bytes}

theorem Grows.follow_node {lastLink : Bool} {budget : Nat} {current : NodeId}
    {segments : List Segment} (grows : fs.Grows fs')
    (h : fs.follow lastLink budget current segments = .ok (.node id)) :
    fs'.follow lastLink budget current segments = .ok (.node id) := by
  induction budget, current, segments using follow.induct fs lastLink with
  | case1 budget current =>
    rw [follow] at h ⊢
    exact h
  | case2 budget current rest here ih =>
    rw [follow, if_pos here] at h
    rw [follow, if_pos (grows.isDirectoryNode here)]
    exact ih h
  | case3 budget current rest here =>
    rw [follow, if_neg here] at h
    cases h
  | case4 budget current name rest e enters => simp [follow, enters] at h
  | case5 budget current name rest missing last =>
    simp only [follow, missing, last, if_true] at h
    cases h
  | case6 budget current name rest missing last =>
    simp only [follow, missing] at h
    rw [if_neg last] at h
    cases h
  | case7 budget current name rest next enters target link last =>
    simp only [follow, enters, link, last, if_true] at h
    simp only [follow, grows.enter enters, grows.link.mpr link, last, if_true]
    exact h
  | case8 current name rest next enters target link last =>
    simp [follow, enters, link, last] at h
  | case9 current name rest next enters target link last budget ih =>
    have further : lastLink = true ∨ rest ≠ [] := by
      cases rest with
      | nil => exact .inl (by simpa using last)
      | cons _ _ => exact .inr (List.cons_ne_nil _ _)
    rw [follow_link enters link further] at h
    rw [follow_link (grows.enter enters) (grows.link.mpr link) further, grows.root]
    rw [dite_eq_ite] at ih
    exact ih h
  | case10 budget current name rest next enters plain ih =>
    rw [follow_entry enters plain] at h
    rw [follow_entry (grows.enter enters) fun target link => plain target (grows.link.mp link)]
    exact ih h

theorem Grows.resolveLink {p : Path} (grows : fs.Grows fs') (h : fs.resolveLink p = .ok id) :
    fs'.resolveLink p = .ok id := by
  obtain ⟨named, found⟩ := resolveWith_iff.mp h
  exact resolveWith_iff.mpr ⟨named, grows.start p ▸ grows.follow_node found⟩

theorem Bounded.follow_node {lastLink : Bool} {budget : Nat} {current : NodeId}
    {segments : List Segment} (bounded : fs.Bounded) (old : current < fs.nodes.size)
    (h : fs.follow lastLink budget current segments = .ok (.node id)) : id < fs.nodes.size := by
  obtain ⟨q, leads, arrives⟩ := arrives_of_followed h
  cases arrives with
  | node => exact bounded.leads leads old
  | link _ enters => exact bounded.enter enters

theorem Bounded.resolve {p : Path} (bounded : fs.Bounded) (h : fs.resolve p = .ok id) :
    id < fs.nodes.size :=
  bounded.follow_node (bounded.start p) (resolveWith_iff.mp h).2

theorem Grows.reaches (grows : fs.Grows fs') (kept : ∀ id, fs.entries id ⊆ fs'.entries id)
    (h : fs.Reaches top names id) : fs'.Reaches top names id := by
  induction h with
  | here => exact .here
  | step entry denotes _ ih =>
    refine .step (kept _ entry) ?_ ih
    cases denotes with
    | itself plain => exact .itself fun target link => plain target (grows.link.mp link)
    | link link leads => exact .link (grows.link.mpr link) (grows.root ▸ grows.leads leads)

theorem Framed.kind (framed : fs.Framed fs' destination sites) (old : id < fs.nodes.size) :
    fs'.isDirectoryNode id = fs.isDirectoryNode id ∧
      ((∃ content, fs'.node? id = some (.file content)) ↔
        ∃ content, fs.node? id = some (.file content)) := by
  obtain ⟨node, there⟩ : ∃ node, fs.node? id = some node := by
    simp [node?, old]
  obtain ⟨node', there', becomes⟩ := framed.kept id node there
  cases becomes <;> simp [isDirectoryNode, there, there']

theorem Added.plain (added : fs'.Added destination sites id) (target : Path) :
    fs'.node? id ≠ some (.link target) := by
  intro link
  cases added with
  | way _ _ directory | between _ _ _ _ _ directory => simp [isDirectoryNode, link] at directory
  | file file =>
    obtain ⟨_, _, _, _, _, _, content, file⟩ := file
    cases link.symm.trans file

end FileSystem

namespace Walk
open FileSystem

/-- What a walk over these roots comes to: whatever visible names lead to from a root. -/
def Sees (fs : FileSystem) (roots : List Path) (id : NodeId) : Prop :=
  ∃ root ∈ roots, ∃ top names, fs.resolve root = .ok top ∧
    (∀ name ∈ names, Path.isHidden name = false) ∧ fs.Reaches top names id

/-- A walk sees neither the destination nor what is below it, nor any directory that was not there
before. -/
def Clear (fs fs' : FileSystem) (roots : List Path) (destination : Path) : Prop :=
  ∀ id, Sees fs' roots id → (∀ names, ¬fs'.At destination names id) ∧
    (fs'.isDirectoryNode id → id < fs.nodes.size)

theorem mem_of_sees {fs : FileSystem} {roots : List Path} {seen : List NodeId} {id : NodeId}
    (tops : ∀ root ∈ roots, ∀ top, fs.resolve root = .ok top → top ∈ seen)
    (closed : ∀ id ∈ seen, ∀ entry ∈ fs.entries id, entry.2 ∈ seen)
    (linkless : ∀ id ∈ seen, fs.isDirectoryNode id ∨ fs.isFileNode id) (h : Sees fs roots id) :
    id ∈ seen := by
  obtain ⟨root, mem, top, names, there, -, reaches⟩ := h
  have first := tops root mem top there
  clear there
  induction reaches with
  | here => exact first
  | step entry denotes _ ih =>
    have inside := closed _ first _ entry
    cases denotes with
    | itself => exact ih inside
    | link link =>
      rcases linkless _ inside with directory | file
      · simp [isDirectoryNode, link] at directory
      · simp [isFileNode, link] at file

theorem clear_of_closed {fs fs' : FileSystem} {roots : List Path} {destination : Path}
    {seen kept : List NodeId} {top : NodeId}
    (tops : ∀ root ∈ roots, ∀ top, fs'.resolve root = .ok top → top ∈ seen)
    (closed : ∀ id ∈ seen, ∀ entry ∈ fs'.entries id, entry.2 ∈ seen)
    (linkless : ∀ id ∈ seen, fs'.isDirectoryNode id ∨ fs'.isFileNode id)
    (there : fs'.resolve destination = .ok top) (first : top ∈ kept)
    (closed' : ∀ id ∈ kept, ∀ entry ∈ fs'.entries id, entry.2 ∈ kept)
    (apart : ∀ id ∈ seen, id ∉ kept ∧ id < fs.nodes.size) : Clear fs fs' roots destination := by
  intro id sees
  obtain ⟨aside, old⟩ := apart id (mem_of_sees tops closed linkless sees)
  exact ⟨fun names below => aside (mem_of_at there first closed' below), fun _ => old⟩

end Walk

namespace Tour
open FileSystem ModuleTree.Path

variable {fs fs' : FileSystem} {destination root path : Path} {roots : List Path}
  {sites : Path → Prop} {trail : Trail} {names : List Bytes} {id child next top : NodeId}
  {name : Bytes} {entries : List (Bytes × NodeId)} {tour : Tour} {isHidden : Bool}

section Passed

theorem Passes.notDirectory {visit : Visit} (passes : Passes fs root trail path next false visit) :
    fs.isDirectoryNode next = false := by
  cases passes with
  | irregular notDirectory => exact notDirectory
  | file file => simp [isDirectoryNode, file]

theorem Covers.of_mem (covers : Covers fs root names trail entries tour)
    (well : tour.failure = none) (mem : (name, child) ∈ entries) :
    (∃ visit, arrive fs root trail (Path.isHidden name) (root.below (names ++ [name])) child =
        .ok (.pass visit)) ∨
      ∃ next inner within, arrive fs root trail (Path.isHidden name)
          (root.below (names ++ [name])) child = .ok (.inside next inner) ∧
        Covers fs root (names ++ [name]) ((next, root.below (names ++ [name])) :: trail) inner
          within ∧ within.failure = none := by
  induction covers with
  | done => cases mem
  | stopped => cases well
  | passed arrives _ ih =>
    rw [failure_append] at well
    rcases List.mem_cons.mp mem with here | later
    · cases here
      exact .inl ⟨_, arrives⟩
    · exact ih (by simpa using well) later
  | entered arrives deeper _ _ ih =>
    rw [failure_append, Option.or_eq_none_iff] at well
    rcases List.mem_cons.mp mem with here | later
    · cases here
      exact .inr ⟨_, _, _, arrives, deeper, well.1⟩
    · exact ih well.2 later

theorem Stands.covered (sound : fs.Sound) (well : (ofRoot fs root).failure = none)
    (stands : Stands fs root names trail id) :
    ∃ tour, Covers fs root names trail (inOrder (fs.entries id)) tour ∧ tour.failure = none := by
  induction stands with
  | @root top opened =>
    have covers := coversRoot_ofRoot sound root
    generalize ofRoot fs root = tour at covers well
    cases covers with
    | stopped => cases well
    | passed arrives =>
      obtain ⟨id, resolved, passes⟩ := enterRoot_passed arrives
      cases opened.resolved.symm.trans resolved
      cases opened.isDirectory.symm.trans passes.notDirectory
    | entered arrives covers =>
      obtain ⟨opened', same⟩ := enterRoot_inside arrives
      cases opened.resolved.symm.trans opened'.resolved
      exact ⟨_, same ▸ covers, well⟩
  | @child names trail id child next name above entry visible identified opened ih =>
    obtain ⟨tour, covers, unfailing⟩ := ih
    rcases covers.of_mem unfailing (mem_inOrder.mpr entry) with
      ⟨visit, arrives⟩ | ⟨there, inner, within, arrives, deeper, well⟩
    · obtain ⟨next', identified', passes⟩ := arrive_passed arrives
      cases identified.symm.trans identified'
      rw [visible] at passes
      cases opened.isDirectory.symm.trans passes.notDirectory
    · obtain ⟨stands, same⟩ := above.enter sound entry arrives
      cases identified.symm.trans (arrive_inside arrives).2.1
      exact ⟨within, same ▸ deeper, well⟩

theorem Stands.arrives (sound : fs.Sound) (well : (ofRoot fs root).failure = none)
    (stands : Stands fs root names trail id) (entry : (name, child) ∈ fs.entries id) :
    ∃ arrival, arrive fs root trail (Path.isHidden name) (root.below (names ++ [name])) child =
      .ok arrival := by
  obtain ⟨tour, covers, unfailing⟩ := stands.covered sound well
  rcases covers.of_mem unfailing (mem_inOrder.mpr entry) with ⟨_, arrives⟩ | ⟨_, _, _, arrives, _⟩
  · exact ⟨_, arrives⟩
  · exact ⟨_, arrives⟩

end Passed

theorem Opened.later (opened : Opened fs path id) (grows : fs.Grows fs') : Opened fs' path id where
  resolved := grows.resolve opened.resolved
  isDirectory := grows.isDirectoryNode opened.isDirectory
  unlocked := by
    rw [isLocked, grows.locked]
    exact opened.unlocked

section Again

variable (framed : fs.Framed fs' destination sites) (bounded : fs.Bounded)
include framed bounded

theorem identify_again (old : id < fs.nodes.size) (h : identify fs root trail path id = .ok next) :
    identify fs' root trail path id = .ok next ∧ next < fs.nodes.size := by
  have grows := framed.grows
  rcases link_or_plain fs id with ⟨target, link⟩ | plain
  · unfold identify at h ⊢
    simp only [link, grows.link.mpr link] at h ⊢
    cases resolved : fs.resolve path with
    | error e => simp [resolved] at h
    | ok there =>
      have inside := bounded.resolve resolved
      have opens : fs'.openNode there = fs.openNode there := by
        unfold openNode isLocked
        rw [grows.locked]
      rw [resolved] at h
      simp only [grows.resolve resolved, (framed.kind inside).1, opens]
      by_cases directory : fs.isDirectoryNode there
      · simp only [directory, if_true] at h ⊢
        cases opened : fs.openNode there with
        | error e => simp [opened] at h
        | ok here =>
          cases (openNode_ok opened).1
          rw [opened] at h
          cases around : trail.find? (·.1 = there) with
          | some ancestor => simp [around] at h
          | none =>
            simp only [around] at h ⊢
            cases h
            exact ⟨rfl, inside⟩
      · simp only [directory, Bool.false_eq_true, if_false] at h ⊢
        cases h
        exact ⟨rfl, inside⟩
  · rw [identify_plain plain] at h
    cases h
    exact ⟨identify_plain fun target link => plain target (grows.link.mp link), old⟩

theorem arrive_again {arrival : Arrival} (old : id < fs.nodes.size)
    (h : arrive fs root trail isHidden path id = .ok arrival) :
    Meets (fun _ => True) (.ok arrival) (arrive fs' root trail isHidden path id) := by
  unfold arrive at h ⊢
  cases identified : identify fs root trail path id with
  | error e => simp [identified] at h
  | ok next =>
    obtain ⟨identified', inside⟩ := identify_again framed bounded old identified
    simp only [identified] at h
    simp only [identified']
    cases isHidden with
    | true =>
      cases h
      exact .pass
    | false =>
      obtain ⟨node, there⟩ : ∃ node, fs.node? next = some node := by
        simp [node?, inside]
      obtain ⟨node', there', becomes⟩ := framed.kept next node there
      simp only [Bool.false_eq_true, if_false, there, there'] at h ⊢
      cases node with
      | directory parent entries =>
        have listed : ∃ entries', node' = .directory parent entries' := by
          cases becomes <;> exact ⟨_, rfl⟩
        obtain ⟨entries', rfl⟩ := listed
        cases read : fs.readDirectory path with
        | error e => simp [read] at h
        | ok _ =>
          obtain ⟨id, opened, _⟩ := opened_of_readDirectory read
          simp only [read] at h
          simp only [readDirectory_of_opened (opened.later framed.grows)]
          cases h
          exact .inside trivial
      | file content =>
        have file : ∃ content', node' = .file content' := by
          cases becomes <;> exact ⟨_, rfl⟩
        obtain ⟨content', rfl⟩ := file
        dsimp only at h ⊢
        rw [h]
        unfold foundAt at h
        split at h
        · cases h
        · cases h
          exact .pass
      | link | special =>
        cases becomes
        cases h
        exact .pass

theorem enterRoot_again {arrival : Arrival} (h : enterRoot fs root = .ok arrival) :
    Meets (fun _ => True) (.ok arrival) (enterRoot fs' root) := by
  unfold enterRoot at h ⊢
  cases found : fs.resolveLink root with
  | error e => simp [found] at h
  | ok id =>
    simp only [found] at h
    simp only [framed.grows.resolveLink found]
    have inside : id < fs.nodes.size :=
      bounded.follow_node (bounded.start root) (resolveWith_iff.mp found).2
    exact arrive_again framed bounded inside h

end Again

section Seen

variable (framed : fs.Framed fs' destination sites) (sound : fs.Sound) (sound' : fs'.Sound)
  (clear : Walk.Clear fs fs' roots destination) (mem : root ∈ roots)
  (well : (ofRoot fs root).failure = none)

theorem unseen_of_added (clear : Walk.Clear fs fs' roots destination)
    (added : fs'.Added destination sites id) (new : fs.nodes.size ≤ id) :
    ¬Walk.Sees fs' roots id := by
  intro seen
  obtain ⟨aside, old⟩ := clear id seen
  cases added with
  | way _ _ directory | between _ _ _ _ _ directory =>
    exact absurd (old directory) (Nat.not_lt.mpr new)
  | file file =>
    obtain ⟨_, names, _, _, _, here, _⟩ := file
    exact aside names here

include framed sound' clear mem in
theorem old_of_visible (stands : Stands fs' root names trail id)
    (entry : (name, child) ∈ fs'.entries id) (visible : Path.isHidden name = false) :
    (name, child) ∈ fs.entries id := by
  by_contra new
  obtain ⟨late, added⟩ := framed.added id _ entry new
  obtain ⟨early, top, first, _⟩ := stands.mem_of_prefix (List.nil_prefix)
  have top_ : fs'.resolve root = .ok top := first.opened.resolved
  apply unseen_of_added clear added late
  refine ⟨root, mem, top, names ++ [name], top_, ?_, ?_⟩
  · intro other there
    rcases List.mem_append.mp there with above | last
    · exact stands.visible other above
    · exact List.mem_singleton.mp last ▸ visible
  · exact reaches_append.mpr ⟨id, stands.reaches sound' top_,
      reaches_single entry (.itself added.plain)⟩

include framed sound sound' clear mem well in
theorem Stands.before (stands : Stands fs' root names trail id) :
    Stands fs root names trail id := by
  have kind {id : NodeId} (old : id < fs.nodes.size) := framed.kind old
  have bounded := sound.bounded
  induction stands with
  | @root top opened =>
    have covers := coversRoot_ofRoot sound root
    generalize ofRoot fs root = tour at covers well
    cases covers with
    | stopped => cases well
    | passed arrives =>
      obtain ⟨id, resolved, passes⟩ := enterRoot_passed arrives
      cases opened.resolved.symm.trans (framed.grows.resolve resolved)
      have inside : top < fs.nodes.size := bounded.resolve resolved
      cases opened.isDirectory.symm.trans ((kind inside).1.trans passes.notDirectory)
    | entered arrives =>
      obtain ⟨opened', _⟩ := enterRoot_inside arrives
      cases opened.resolved.symm.trans (framed.grows.resolve opened'.resolved)
      exact .root opened'
  | @child names trail id child next name above entry visible identified opened ih =>
    have old := old_of_visible framed sound' clear mem above entry visible
    obtain ⟨arrival, arrives⟩ := ih.arrives sound well old
    have inside : child < fs.nodes.size := sound.inside _ _ old
    cases arrival with
    | pass visit =>
      obtain ⟨next', identified', passes⟩ := arrive_passed arrives
      obtain ⟨again, old'⟩ := identify_again framed bounded inside identified'
      cases identified.symm.trans again
      rw [visible] at passes
      cases opened.isDirectory.symm.trans ((kind old').1.trans passes.notDirectory)
    | inside next' entries =>
      obtain ⟨again, _⟩ := identify_again framed bounded inside (arrive_inside arrives).2.1
      cases identified.symm.trans again
      exact (ih.enter sound old arrives).1

include framed sound sound' clear mem well

theorem Stands.arrives_again (stands : Stands fs' root names trail id)
    (entry : (name, child) ∈ fs'.entries id) :
    (∃ visit, arrive fs' root trail (Path.isHidden name) (root.below (names ++ [name])) child =
        .ok (.pass visit) ∧ ((name, child) ∈ fs.entries id ∧
          arrive fs root trail (Path.isHidden name) (root.below (names ++ [name])) child =
            .ok (.pass visit) ∨ visit = .hidden (root.below (names ++ [name])))) ∨
      ∃ next inner, arrive fs' root trail (Path.isHidden name) (root.below (names ++ [name]))
        child = .ok (.inside next inner) := by
  have before := stands.before framed sound sound' clear mem well
  by_cases old : (name, child) ∈ fs.entries id
  · obtain ⟨arrival, arrives⟩ := before.arrives sound well old
    have again := arrive_again framed sound.bounded (sound.inside _ _ old) arrives
    cases arrival with
    | pass visit => exact .inl ⟨visit, again.of_pass, .inl ⟨old, arrives⟩⟩
    | inside next inner =>
      obtain ⟨_, inner', arrives'⟩ := again.of_inside
      exact .inr ⟨next, inner', arrives'⟩
  · have hidden : Path.isHidden name = true := by
      rw [← Bool.not_eq_false]
      exact fun visible => old (old_of_visible framed sound' clear mem stands entry visible)
    have plain := (framed.added id _ entry old).2.plain
    refine .inl ⟨.hidden (root.below (names ++ [name])), ?_, .inr rfl⟩
    simp [arrive, identify_plain plain, hidden]

theorem unfailing_again : (ofRoot fs' root).failure = none := by
  have covers := coversRoot_ofRoot sound root
  have covers' := coversRoot_ofRoot sound' root
  have arrives : ∃ arrival, enterRoot fs root = .ok arrival := by
    generalize ofRoot fs root = tour at covers well
    cases covers with
    | stopped => cases well
    | passed arrives | entered arrives => exact ⟨_, arrives⟩
  obtain ⟨arrival, arrives⟩ := arrives
  have again := enterRoot_again framed sound.bounded arrives
  generalize ofRoot fs' root = tour at covers'
  cases covers' with
  | stopped arrives' =>
    rw [arrives'] at again
    cases again
  | passed => rfl
  | entered arrives' covers' =>
    obtain ⟨opened, listed⟩ := enterRoot_inside arrives'
    have comes := (covers'.comesTo sound' (.root opened) fun entry there =>
      mem_inOrder.mp (listed ▸ there)).2
    cases failure : tour.failure with
    | none => rfl
    | some e =>
      obtain ⟨stands, entry, arrives, _⟩ := comes e failure
      rcases stands.arrives_again framed sound sound' clear mem well entry with
        ⟨visit, passed, _⟩ | ⟨next, inner, inside⟩
      · cases arrives.symm.trans passed
      · cases arrives.symm.trans inside

theorem shows_before {found : Found} (top_ : fs.resolve root = .ok top)
    (isDirectory : fs.isDirectoryNode top) (held : found ∈ (ofRoot fs' root).files) :
    ∃ names, Shows fs top names ∧ found = ⟨root.append ⟨join names⟩, ⟨join names⟩⟩ := by
  have covers := coversRoot_ofRoot sound' root
  generalize ofRoot fs' root = tour at covers held
  rw [mem_files] at held
  cases covers with
  | stopped => cases held
  | passed arrives =>
    obtain ⟨id, resolved, passes⟩ := enterRoot_passed arrives
    cases resolved.symm.trans (framed.grows.resolve top_)
    have directory := framed.grows.isDirectoryNode isDirectory
    cases directory.symm.trans passes.notDirectory
  | entered arrives covers =>
    obtain ⟨opened, listed⟩ := enterRoot_inside arrives
    obtain ⟨stands, entry, arrives, _⟩ := (covers.comesTo sound' (.root opened) fun entry there =>
      mem_inOrder.mp (listed ▸ there)).1 _ held
    have before := stands.before framed sound sound' clear mem well
    rcases stands.arrives_again framed sound sound' clear mem well entry with
      ⟨visit, passed, same⟩ | ⟨next, inner, inside⟩
    · cases arrives.symm.trans passed
      rcases same with ⟨old, arrives⟩ | hidden
      · obtain ⟨shown, same⟩ := shows_of_arrives sound before old arrives top_
        refine ⟨_, shown, ?_⟩
        rw [same, below_eq_append (by simp) (shown.valid sound)]
      · cases hidden
    · cases arrives.symm.trans inside

theorem files_again : (ofRoot fs' root).files = (ofRoot fs root).files := by
  have grows := framed.grows
  have kind {id : NodeId} (there : fs.resolve root = .ok id) :=
    framed.kind (sound.bounded.resolve there)
  have before {found : Found} {top : NodeId} (there : fs.resolve root = .ok top)
      (isDirectory : fs.isDirectoryNode top) (held : found ∈ (ofRoot fs' root).files) :=
    shows_before framed sound sound' clear mem well there isDirectory held
  have holds := holds_of_unfailing sound well
  have holds' := holds_of_unfailing sound' (unfailing_again framed sound sound' clear mem well)
  generalize (ofRoot fs root).files = files at holds
  generalize (ofRoot fs' root).files = files' at holds' before
  cases holds with
  | file there file named =>
    have file' := (kind there).2.mpr ⟨_, file⟩
    cases holds' with
    | file _ _ named' =>
      cases named.symm.trans named'
      rfl
    | directory there' isDirectory =>
      cases there'.symm.trans (grows.resolve there)
      obtain ⟨content, file'⟩ := file'
      simp [isDirectoryNode, file'] at isDirectory
    | other there' _ notFile =>
      cases there'.symm.trans (grows.resolve there)
      obtain ⟨content, file'⟩ := file'
      exact absurd file' (notFile content)
  | directory there isDirectory exactly increasing =>
    have isDirectory' := grows.isDirectoryNode isDirectory
    cases holds' with
    | file there' file =>
      cases there'.symm.trans (grows.resolve there)
      simp [isDirectoryNode, file] at isDirectory'
    | directory there' _ exactly' increasing' =>
      cases there'.symm.trans (grows.resolve there)
      refine eq_of_increasing (fun _ _ => List.lt_asymm) increasing' increasing fun found => ?_
      constructor
      · intro held
        exact (exactly found).mpr (before there isDirectory held)
      · intro held
        obtain ⟨names, shown, same⟩ := (exactly found).mp held
        refine (exactly' found).mpr ⟨names, ⟨shown.visible, ?_⟩, same⟩
        obtain ⟨id, content, reaches, file⟩ := shown.file
        obtain ⟨content', file'⟩ := grows.file file
        exact ⟨id, content', grows.reaches framed.entries_subset reaches, file'⟩
    | other there' notDirectory =>
      cases there'.symm.trans (grows.resolve there)
      cases isDirectory'.symm.trans notDirectory
  | other there notDirectory notFile =>
    cases holds' with
    | file there' file =>
      cases there'.symm.trans (grows.resolve there)
      obtain ⟨content, file⟩ := (kind there).2.mp ⟨_, file⟩
      exact absurd file (notFile content)
    | directory there' isDirectory =>
      cases there'.symm.trans (grows.resolve there)
      cases isDirectory.symm.trans ((kind there).1.trans notDirectory)
    | other => rfl

end Seen

theorem ofRoots_again (framed : fs.Framed fs' destination sites) (sound : fs.Sound)
    (sound' : fs'.Sound) (clear : Walk.Clear fs fs' roots destination)
    (well : (ofRoots fs roots).failure = none) :
    Matches (ofRoots fs roots) (ofRoots fs' roots) := by
  have each : ∀ root ∈ roots, Matches (ofRoot fs root) (ofRoot fs' root) := by
    intro root mem
    have here := unfailing_ofRoots well root mem
    exact ⟨(files_again framed sound sound' clear mem here).symm,
      here.trans (unfailing_again framed sound sound' clear mem here).symm⟩
  clear well clear
  induction roots with
  | nil => exact .refl _
  | cons root roots ih =>
    obtain ⟨first, rest⟩ := List.forall_mem_cons.mp each
    exact (Matches.refl _).append (first.append (ih rest))

end Tour

namespace Discovery
open Tour ModuleTree.Path

variable {fs fs' : FileSystem} {roots : List Path} {destination : Path} {sites : Path → Prop}
  {settings : Settings} {jobs : List Job}

theorem jobs_again (framed : fs.Framed fs' destination sites) (sound : fs.Sound)
    (sound' : fs'.Sound) (clear : Walk.Clear fs fs' roots destination)
    (found : Discovery.jobs fs roots destination settings = .ok jobs) :
    Discovery.jobs fs' roots destination settings = .ok jobs := by
  have well := (jobs_ok_iff.mp ⟨jobs, found⟩).1
  have same := ofRoots_again framed sound sound' clear well
  rw [jobs_eq_foldlM] at found ⊢
  rw [← found, Tour.items, Tour.items, same.files, same.failure]

theorem seen_of_job {job : Job} {id : NodeId} (sound : fs.Sound)
    (discovered : Discovery.jobs fs roots destination settings = .ok jobs) (mem : job ∈ jobs)
    (there : fs.resolve job.input = .ok id) : Walk.Sees fs roots id := by
  obtain ⟨found, held, rfl⟩ := found_of_job discovered mem
  obtain ⟨root, member, held⟩ := mem_ofRoots held
  have well := unfailing_ofRoots (jobs_ok_iff.mp ⟨jobs, discovered⟩).1 root member
  have holds := holds_of_unfailing sound well
  generalize (ofRoot fs root).files = files at holds held
  cases holds with
  | file =>
    cases List.mem_singleton.mp held
    exact ⟨root, member, id, [], there, by simp, .here⟩
  | @directory top _ top_ isDirectory exactly =>
    obtain ⟨names, shown, rfl⟩ := (exactly found).mp held
    have further : names ≠ [] := by
      rintro rfl
      obtain ⟨file, content, way, content_⟩ := shown.file
      cases way
      simp [FileSystem.isDirectoryNode, content_] at isDirectory
    have valid := shown.valid sound
    have below : fs.resolve (root.below names) = .ok id := by
      rwa [below_eq_append further valid]
    exact ⟨root, member, top, names, top_, shown.visible,
      FileSystem.reaches_of_resolve valid top_ below⟩
  | other => cases held

end Discovery

end ModuleTree
