import ModuleTree.Proofs.FileSystem.Frame
import ModuleTree.Proofs.FileSystem.Level
import ModuleTree.Proofs.FileSystem.Reach
import ModuleTree.Proofs.FileSystem.Soundness
import ModuleTree.Proofs.Path.Ancestors
/- Paths with nothing in the way of a directory. Whatever stands on such a path is a directory, and
   behind it the path breaks off at a name that is not there. A directory made anywhere leaves such
   a path free, if the path goes down only: where it makes the name that was missing, it is empty. -/
namespace ModuleTree.FileSystem
open ModuleTree.Path (dot Up)

def Missed : Except IoError Spot → Prop
  | .ok (.gap _ _ _) => True
  | .error .notFound => True
  | _ => False

/-- A path has no entry at all: not even a link that leads nowhere. -/
def Lacks (fs : FileSystem) (p : Path) : Prop :=
  Missed (fs.spot false p (p.segmentNames.map .name))

/-- A path and each one above it are a directory or nothing at all. -/
def Free (fs : FileSystem) (p : Path) : Prop :=
  ∀ q, Relation.ReflTransGen Up p q → fs.isDirectory q = true ∨ fs.Lacks q

/-- What is missing on the way to a path are names that a directory can have. -/
def Downward (fs : FileSystem) (p : Path) : Prop :=
  ∀ q, Relation.ReflTransGen Up p q → fs.Lacks q → ∀ name ∈ q.segmentNames.getLast?, Proper name

def TurnsBack (fs : FileSystem) (p : Path) : Prop :=
  ∃ q, Relation.ReflTransGen Up p q ∧ fs.Lacks q ∧ q.segmentNames.getLast? = some up

/-- A path that breaks off at a name that an open directory does not hold, with nothing behind it
that leads up. -/
inductive Vacant (fs : FileSystem) (p : Path) : Prop where
  | intro {front rest : List Bytes} {name : Bytes} {left : Nat} {directory : NodeId}
      (spelled : refuse? p = none) (names : p.segmentNames = front ++ name :: rest)
      (leads : fs.Leads ⟨linkLimit, fs.start p, front.map .name⟩ ⟨left, directory, []⟩)
      (missing : fs.enter directory name = .ok none)
      (level : ∀ piece ∈ rest, piece = [dot] ∨ Proper piece) : Vacant fs p

instance (name : Bytes) : Decidable (Proper name) :=
  decidable_of_iff (name ≠ [dot] ∧ name ≠ up ∧ name.length ≤ nameLimit)
    ⟨fun ⟨here, up, short⟩ => ⟨here, up, short⟩, fun h => ⟨h.notHere, h.notUp, h.short⟩⟩

instance : DecidablePred Missed
  | .ok (.gap _ _ _) => isTrue trivial
  | .ok (.node _) => isFalse id
  | .error e => decidable_of_iff (e = .notFound) (by cases e <;> simp [Missed])

instance (fs : FileSystem) (p : Path) : Decidable (fs.Lacks p) :=
  inferInstanceAs (Decidable (Missed _))

variable {fs fs' : FileSystem} {p q a : Path} {lastLink : Bool} {budget : Nat} {current : NodeId}

theorem free_of_chain {paths : List Path} (chain : p.chain = paths)
    (each : (paths.all fun q => decide (fs.isDirectory q = true ∨ fs.Lacks q)) = true) :
    fs.Free p := by
  intro q way
  have mem : q ∈ paths := chain ▸ Path.mem_chain_iff.mpr way
  simpa using List.all_eq_true.mp each q mem

section Missing

theorem enter_ne_notFound (fs : FileSystem) (current : NodeId) (name : Bytes) :
    fs.enter current name ≠ .error .notFound := by
  unfold enter
  split
  · split
    · simp
    · split
      · simp
      · split
        · simp
        · split <;> simp
  · simp

theorem open_of_missed {name : Bytes} {rest : List Segment}
    (missed : Missed (fs.follow lastLink budget current (.name name :: rest))) :
    ∃ found, fs.enter current name = .ok found := by
  cases entered : fs.enter current name with
  | ok found => exact ⟨found, rfl⟩
  | error e =>
    rw [follow, entered] at missed
    have other : e ≠ .notFound := by
      rintro rfl
      exact enter_ne_notFound fs current name entered
    cases e <;> first | exact absurd rfl other | exact missed.elim

theorem not_missed_here : ¬Missed (fs.follow lastLink budget current []) := by
  rw [follow]
  exact id

theorem enter_dot {found : Option NodeId} (enters : fs.enter current [dot] = .ok found) :
    found = some current ∧ fs.isDirectoryNode current = true := by
  obtain ⟨parent, entries, open_, steps⟩ := steps_of_enter enters
  generalize same : [dot] = name at steps
  refine ⟨?_, by simp [isDirectoryNode, open_.node]⟩
  cases steps with
  | here => rfl
  | up => cases same
  | name proper => exact absurd same.symm proper.notHere

theorem plain_of_isDirectoryNode {id : NodeId} (directory : fs.isDirectoryNode id = true)
    (target : Path) : fs.node? id ≠ some (.link target) := by
  intro link
  simp [isDirectoryNode, link] at directory

theorem leads_dots {dots : List Bytes} {rest : List Segment} (all : ∀ d ∈ dots, d = [dot])
    (missed : Missed (fs.follow lastLink budget current (dots.map .name ++ rest))) :
    fs.Leads ⟨budget, current, dots.map .name⟩ ⟨budget, current, []⟩ ∧
      Missed (fs.follow lastLink budget current rest) := by
  induction dots with
  | nil => exact ⟨.refl, missed⟩
  | cons d dots ih =>
    obtain rfl := all d List.mem_cons_self
    obtain ⟨found, enters⟩ := open_of_missed missed
    obtain ⟨rfl, directory⟩ := enter_dot enters
    have plain := plain_of_isDirectoryNode directory
    rw [List.map_cons, List.cons_append, follow_entry enters plain] at missed
    obtain ⟨leads, missed⟩ := ih (fun d mem => all d (List.mem_cons_of_mem _ mem)) missed
    exact ⟨.head (.entry enters plain) leads, missed⟩

theorem follow_of_leads {front rest : List Segment} {left : Nat} {id : NodeId}
    (leads : fs.Leads ⟨budget, current, front⟩ ⟨left, id, []⟩) (further : rest ≠ []) :
    fs.follow lastLink budget current (front ++ rest) = fs.follow lastLink left id rest :=
  followed_of_leads leads rest (.inr further)

theorem lacks_iff (named : p.isEmpty = false) : fs.Lacks p ↔ refuse? p = none ∧
    Missed (fs.follow false linkLimit (fs.start p) (p.segmentNames.map .name)) := by
  unfold Lacks spot
  cases refused : refuse? p with
  | none => simp
  | some e =>
    have other : e ≠ .notFound := by
      rintro rfl
      simp [refuse?, named] at refused
      split at refused
      · cases refused
      · split at refused <;> cases refused
    cases e <;> first | exact absurd rfl other | simp [Missed]

theorem lacks_of_isEmpty (empty : p.isEmpty = true) : fs.Lacks p := by
  rw [Path.eq_empty_of_isEmpty empty]
  trivial

theorem not_lacks_of_dots (named : p.isEmpty = false) (dots : ∀ d ∈ p.segmentNames, d = [dot]) :
    ¬fs.Lacks p := by
  intro lacks
  have missed := ((lacks_iff named).mp lacks).2
  rw [← List.append_nil (p.segmentNames.map _)] at missed
  exact not_missed_here (leads_dots dots missed).2

theorem not_pathExists_of_lacks (named : p.isEmpty = false) (lacks : fs.Lacks p) :
    fs.pathExists p = false := by
  rw [← Bool.not_eq_true, pathExists_iff]
  rintro ⟨id, found⟩
  obtain ⟨_, ⟨left, leads⟩, _⟩ := resolve_iff.mp found
  obtain ⟨there, arrived⟩ := followed_of_end leads
  have missed := ((lacks_iff named).mp lacks).2
  change Place.followed fs false ⟨linkLimit, fs.start p, p.segmentNames.map .name⟩ = _ at arrived
  rw [Place.followed] at arrived
  rw [arrived] at missed
  exact missed

theorem undotted_of_up (up : p.Up a) (lacks : fs.Lacks a) :
    a.segmentNames.getLast? ≠ some [dot] := by
  intro dotted
  cases named : a.isEmpty with
  | false => exact not_lacks_of_dots named (Path.dots_of_dotted_up up dotted) lacks
  | true =>
    rw [Path.eq_empty_of_isEmpty named] at dotted
    cases dotted

theorem gap_of_lacks (up : p.Up a) (above : a.isEmpty = true ∨ fs.pathExists a = true)
    (lacks : fs.Lacks p) (undotted : p.segmentNames.getLast? ≠ some [dot]) :
    ∃ front last left directory, p.segmentNames = front ++ [last] ∧
      fs.Leads ⟨linkLimit, fs.start p, front.map .name⟩ ⟨left, directory, []⟩ ∧
        fs.enter directory last = .ok none := by
  obtain ⟨dots, last, whole, between⟩ := Path.last_of_up up undotted
  have named := Path.named_of_up up
  obtain ⟨left, top, leads⟩ : ∃ left top,
      fs.Leads ⟨linkLimit, fs.start p, a.segmentNames.map .name⟩ ⟨left, top, []⟩ := by
    rcases above with empty | there
    · rw [Path.eq_empty_of_isEmpty empty]
      exact ⟨_, _, .refl⟩
    · obtain ⟨id, found⟩ := pathExists_iff.mp there
      obtain ⟨left, leads⟩ := leadsTo_of_resolve found
      rw [start_eq fs (Path.onTheWay_of_parent? up).absolute] at leads
      exact ⟨left, id, leads⟩
  have missed := ((lacks_iff named).mp lacks).2
  rw [whole, List.append_assoc, List.map_append, List.map_append, List.map_singleton,
    follow_of_leads leads (by simp)] at missed
  obtain ⟨leads', missed⟩ := leads_dots between missed
  refine ⟨a.segmentNames ++ dots, last, left, top, whole, ?_, ?_⟩
  · rw [List.map_append]
    exact leads_append.mpr ⟨left, top, leads, leads'⟩
  · obtain ⟨found, enters⟩ := open_of_missed missed
    cases found with
    | none => exact enters
    | some id =>
      -- A last name that is there is no name that is missed.
      rcases link_or_plain fs id with ⟨target, link⟩ | plain
      · simp [follow, enters, link, Missed] at missed
      · rw [follow_entry enters plain] at missed
        exact absurd missed not_missed_here

end Missing

section Vacant

theorem Vacant.lacks (vacant : fs.Vacant p) : fs.Lacks p := by
  obtain @⟨front, rest, name, left, directory, spelled, names, leads, missing, _⟩ := vacant
  unfold Lacks spot
  rw [spelled, names, List.map_append, follow_of_leads leads (by simp), List.map_cons, follow,
    missing]
  dsimp only
  split <;> trivial

theorem makeDirectory_of_lacks (up : p.Up a) (above : a.isEmpty = true ∨ fs.pathExists a = true)
    (lacks : fs.Lacks p) (undotted : p.segmentNames.getLast? ≠ some [dot]) :
    ∃ fs', fs.makeDirectory p = .ok fs' := by
  obtain ⟨front, last, left, directory, names, leads, missing⟩ :=
    gap_of_lacks up above lacks undotted
  have named := Path.named_of_up up
  have gap : fs.follow false linkLimit (fs.start p) (p.segmentNames.map .name) =
      .ok (.gap directory last false) := by
    rw [names, List.map_append, List.map_singleton, follow_of_leads leads (by simp)]
    simp [follow, missing]
  refine ⟨(fs.addNode directory last (.directory directory [])).2, ?_⟩
  simp [makeDirectory, addEntry, spot, ((lacks_iff named).mp lacks).1, gap]

theorem vacant_of_lacks (free : fs.Free p) (downward : fs.Downward p)
    (way : Relation.ReflTransGen Up p q) (named : q.isEmpty = false) (lacks : fs.Lacks q) :
    fs.Vacant q := by
  -- On the number of names. A parent that is missing too breaks off in front.
  induction size : q.segmentNames.length using Nat.strong_induction_on generalizing q with
  | _ count ih =>
    have proper := downward q way lacks
    have undotted : q.segmentNames.getLast? ≠ some [dot] :=
      fun dotted => (proper [dot] dotted).notHere rfl
    cases up : q.parent? with
    | none => exact absurd lacks (not_lacks_of_dots named (Path.dots_of_top up))
    | some a =>
      have spelled := ((lacks_iff named).mp lacks).1
      by_cases above : a.isEmpty = true ∨ fs.pathExists a = true
      · obtain ⟨front, last, left, directory, names, leads, missing⟩ :=
          gap_of_lacks up above lacks undotted
        exact ⟨spelled, names, leads, missing, by simp⟩
      · obtain ⟨nonempty, absent⟩ := not_or.mp above
        have lacks' := (free a (way.tail up)).resolve_left fun directory =>
          absent (pathExists_of_isDirectory directory)
        obtain ⟨more, some, whole⟩ := Path.shorter_of_parent? up
        have shorter : a.segmentNames.length < count := by
          rw [← size, whole, List.length_append]
          exact Nat.lt_add_of_pos_right (List.length_pos_iff.mpr some)
        obtain @⟨front, rest, name, left, directory, _, names, leads, missing, level⟩ :=
          ih _ shorter (way.tail up) (by simpa using nonempty) lacks' rfl
        obtain ⟨dots, last, whole, between⟩ := Path.last_of_up up undotted
        rw [start_eq fs (Path.onTheWay_of_parent? up).absolute] at leads
        have names : q.segmentNames = front ++ name :: (rest ++ dots ++ [last]) := by
          rw [whole, names]
          simp
        refine ⟨spelled, names, leads, missing, ?_⟩
        intro piece mem
        rcases List.mem_append.mp mem with early | here
        · rcases List.mem_append.mp early with before | dot
          · exact level piece before
          · exact .inl (between piece dot)
        · obtain rfl := List.mem_singleton.mp here
          exact .inr (proper piece (by simp [whole]))

theorem downward_or_turnsBack (short : ∀ name ∈ p.segmentNames, name.length ≤ nameLimit)
    (undotted : fs.Lacks p → p.segmentNames.getLast? ≠ some [dot]) :
    fs.Downward p ∨ fs.TurnsBack p := by
  by_cases turns : fs.TurnsBack p
  · exact .inr turns
  · refine .inl fun q way lacks name last => ⟨?_, ?_, ?_⟩
    · rintro rfl
      rcases Relation.ReflTransGen.cases_tail way with rfl | ⟨below, _, up⟩
      · exact undotted lacks last
      · exact undotted_of_up up lacks last
    · rintro rfl
      exact turns ⟨q, way, lacks, last⟩
    · have mem := List.mem_of_getLast? last
      exact short name ((Path.onTheWay_of_mem_chain (Path.mem_chain_iff.mpr way)).names.subset mem)

end Vacant

section Made

theorem leads_or_misses {above : NodeId} (open_ : fs.Open current above []) (budget : Nat)
    (rest : List Bytes) (level : ∀ piece ∈ rest, piece = [dot] ∨ Proper piece) :
    fs.Leads ⟨budget, current, rest.map .name⟩ ⟨budget, current, []⟩ ∨
      ∃ dots name more, rest = dots ++ name :: more ∧
        fs.Leads ⟨budget, current, dots.map .name⟩ ⟨budget, current, []⟩ ∧
          fs.enter current name = .ok none := by
  induction rest with
  | nil => exact .inl .refl
  | cons piece rest ih =>
    rcases level piece List.mem_cons_self with rfl | proper
    · have step {later : List Segment} :
          fs.Goes ⟨budget, current, .name [dot] :: later⟩ ⟨budget, current, later⟩ :=
        .entry (enter_here open_) fun target link => by cases open_.node.symm.trans link
      rcases ih fun piece mem => level piece (List.mem_cons_of_mem _ mem) with
        leads | ⟨dots, name, more, rfl, leads, missing⟩
      · exact .inl (.head step leads)
      · exact .inr ⟨[dot] :: dots, name, more, rfl, .head step leads, missing⟩
    · exact .inr ⟨[], piece, rest, rfl, .refl, enter_name open_ proper⟩

theorem empty_of_made {directory id : NodeId} {name : Bytes} (locks : fs.LocksThere)
    (made : fs.makeDirectory q = .ok fs') (missing : fs.enter directory name = .ok none)
    (enters : fs'.enter directory name = .ok (some id)) : ∃ above, fs'.Open id above [] := by
  have grows := (makeDirectory_changes made).grows
  obtain ⟨_, _, open_, _⟩ := steps_of_enter missing
  obtain ⟨top, new, slashed, gap, same⟩ := makeDirectory_ok made
  obtain ⟨_, _, _, _, _, _, _, openTop, _⟩ := gap_of_follow gap
  have inside := lt_size_of_node? openTop.node
  obtain rfl : id = fs.nodes.size := by
    subst same
    rcases enter_addNode openTop.node (lt_size_of_node? open_.node) enters with before | ⟨_, _, new⟩
    · cases missing.symm.trans before
    · exact new
  refine ⟨top, ?_, locks.unlocked grows (by simp [node?])⟩
  rw [same, node?_addNode openTop.node, if_neg (Nat.ne_of_gt inside), if_pos rfl]

theorem Vacant.makeDirectory (vacant : fs.Vacant p) (locks : fs.LocksThere)
    (made : fs.makeDirectory q = .ok fs') : fs'.isDirectory p = true ∨ fs'.Vacant p := by
  obtain @⟨front, rest, name, left, directory, spelled, names, leads, missing, level⟩ := vacant
  have grows := (makeDirectory_changes made).grows
  have leads := grows.leads leads
  rw [← grows.start] at leads
  obtain ⟨parent, entries, open_, steps⟩ := steps_of_enter missing
  obtain ⟨proper, _⟩ := steps.proper_of_none rfl
  obtain ⟨entries', node', _⟩ := grows.directory open_.node
  have open' : fs'.Open directory parent entries' :=
    ⟨node', (grows.isLocked directory).trans open_.unlocked⟩
  have enters := enter_name open' proper
  cases found : entries'.lookup name with
  | none => exact .inr ⟨spelled, names, leads, found ▸ enters, level⟩
  | some id =>
    rw [found] at enters
    obtain ⟨above, empty⟩ := empty_of_made locks made missing enters
    have into {later : List Segment} (budget : Nat) :
        fs'.Goes ⟨budget, directory, .name name :: later⟩ ⟨budget, id, later⟩ :=
      .entry enters fun target link => by cases empty.node.symm.trans link
    rcases leads_or_misses empty left rest level with
      onward | ⟨dots, next, more, rfl, onward, misses⟩
    · have there : fs'.LeadsTo p p.segmentNames id := by
        refine ⟨left, ?_⟩
        rw [names, List.map_append]
        exact leads_append.mpr ⟨left, directory, leads, .head (into left) onward⟩
      have isDirectory : fs'.isDirectoryNode id = true := by simp [isDirectoryNode, empty.node]
      exact .inl (isDirectory_iff.mpr
        ⟨id, resolve_iff.mpr ⟨spelled, there, fun _ => isDirectory⟩, isDirectory⟩)
    · have names : p.segmentNames = (front ++ name :: dots) ++ next :: more := by
        rw [names]
        simp
      have there : fs'.Leads ⟨linkLimit, fs'.start p, (front ++ name :: dots).map .name⟩
          ⟨left, id, []⟩ := by
        rw [List.map_append]
        exact leads_append.mpr ⟨left, directory, leads, .head (into left) onward⟩
      exact .inr ⟨spelled, names, there, misses,
        fun piece mem => level piece (List.mem_append_right _ (List.mem_cons_of_mem _ mem))⟩

end Made

end ModuleTree.FileSystem
