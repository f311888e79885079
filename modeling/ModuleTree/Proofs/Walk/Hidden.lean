import Mathlib
import ModuleTree.Proofs.FileSystem.Alike
import ModuleTree.Proofs.Walk.Iteration
/- Hidden entries. They are left out only once they have been looked at, so that a hidden link must
   lead somewhere. Two file systems that differ in nothing but hidden entries give the same items
   if each hidden link in them does. -/
namespace ModuleTree

namespace Tour
open FileSystem ModuleTree.Path

variable {fs fs' : FileSystem} {common : NodeId → Prop} {root path : Path} {trail : Trail}
  {names : List Bytes} {id child next : NodeId} {name : Bytes}
  {entries entries' rest : List (Bytes × NodeId)} {tour tour' : Tour}

section Arrivals

inductive Meets (common : NodeId → Prop) :
    Except WalkError Arrival → Except WalkError Arrival → Prop where
  | error {e : WalkError} : Meets common (.error e) (.error e)
  | pass {visit : Visit} : Meets common (.ok (.pass visit)) (.ok (.pass visit))
  | inside {id : NodeId} {entries entries' : List (Bytes × NodeId)} (here : common id) :
      Meets common (.ok (.inside id entries)) (.ok (.inside id entries'))

variable (alike : Alike fs fs' common)
include alike

theorem fault_alike (root : Path) (reported : Option Path)
    (avoids : PathAvoids fs fs' common (reported.getD root)) (e : IoError) :
    fault fs root reported e = fault fs' root reported e := by
  simp only [fault, isDirectory_alike alike avoids]

theorem identify_alike (trail : Trail) (start : PathAvoids fs fs' common root)
    (avoids : PathAvoids fs fs' common path) (here : common id) :
    identify fs root trail path id = identify fs' root trail path id ∧
      ∀ next, identify fs root trail path id = .ok next → common next := by
  rcases link_or_plain fs id with ⟨target, link⟩ | plain
  · obtain ⟨same, held⟩ := resolve_alike alike avoids
    unfold identify
    rw [link, (link_alike alike here).mp link]
    dsimp only
    rw [← same]
    cases resolved : fs.resolve path with
    | error e =>
      have blamed := fault_alike alike root (some path) avoids e
      exact ⟨congrArg _ blamed, nofun⟩
    | ok reached =>
      have there := held reached resolved
      have blamed := fault_alike alike root none start
      dsimp only
      rw [← isDirectoryNode_alike alike there, ← openNode_alike alike there]
      cases isDirectory : fs.isDirectoryNode reached with
      | false =>
        refine ⟨rfl, fun next same => ?_⟩
        cases same
        exact there
      | true =>
        cases opened : fs.openNode reached with
        | error e => exact ⟨congrArg _ (blamed e), nofun⟩
        | ok id =>
          cases (openNode_ok opened).1
          dsimp only
          cases trail.find? (·.1 = reached) with
          | some around => exact ⟨rfl, nofun⟩
          | none =>
            refine ⟨rfl, fun next same => ?_⟩
            cases same
            exact there
  · have plain' : ∀ target, fs'.node? id ≠ some (.link target) := fun target h =>
      plain target ((link_alike alike here).mpr h)
    rw [identify_plain plain, identify_plain plain']
    refine ⟨rfl, fun next same => ?_⟩
    cases same
    exact here

theorem arrive_alike (trail : Trail) (isHidden : Bool) (start : PathAvoids fs fs' common root)
    (avoids : PathAvoids fs fs' common path) (here : common id) :
    Meets common (arrive fs root trail isHidden path id)
      (arrive fs' root trail isHidden path id) := by
  obtain ⟨same, held⟩ := identify_alike alike trail start avoids here
  unfold arrive
  rw [← same]
  cases identified : identify fs root trail path id with
  | error e => exact .error
  | ok next =>
    have there := held next identified
    cases isHidden with
    | true => exact .pass
    | false =>
      have kind := alike.kinds next there
      have blamed := fault_alike alike root (some path) avoids
      dsimp only
      generalize fs.node? next = node, fs'.node? next = node' at kind ⊢
      cases kind with
      | directory =>
        rcases readDirectory_alike alike avoids with ⟨e, read, read'⟩ | ⟨_, _, read, read'⟩
        · simp only [read, read', blamed e]
          exact .error
        · simp only [read, read']
          exact .inside there
      | plain plain =>
        cases node with
        | none => exact .pass
        | some node =>
          cases node with
          | directory parent entries => exact absurd rfl (plain parent entries)
          | file content =>
            unfold foundAt
            cases relativeToRoot root trail.isEmpty path with
            | error e => exact .error
            | ok relative => exact .pass
          | _ => exact .pass

end Arrivals

structure Matches (a b : Tour) : Prop where
  files : a.files = b.files
  failure : a.failure = b.failure

theorem Matches.append {a a' b b' : Tour} (first : Matches a a') (second : Matches b b') :
    Matches (a ++ b) (a' ++ b') := by
  constructor
  · cases failure : a.failure with
    | some e =>
      rw [append_eq_of_failure failure, append_eq_of_failure (first.failure ▸ failure)]
      exact first.files
    | none =>
      rw [files_append failure, files_append (first.failure ▸ failure), first.files, second.files]
  · rw [failure_append, failure_append, first.failure, second.failure]

theorem Matches.refl (t : Tour) : Matches t t := ⟨rfl, rfl⟩

theorem Matches.symm {a b : Tour} (h : Matches a b) : Matches b a :=
  ⟨h.files.symm, h.failure.symm⟩

theorem Matches.trans {a b c : Tour} (first : Matches a b) (second : Matches b c) : Matches a c :=
  ⟨first.files.trans second.files, first.failure.trans second.failure⟩

theorem matches_hidden (path : Path) (t : Tour) : Matches (⟨[.hidden path], none⟩ ++ t) t := by
  refine ⟨files_append rfl, ?_⟩
  rw [failure_append]
  rfl

/-- Each hidden link in a directory that a tour comes to leads somewhere, and if to a directory,
to one that is neither locked nor around the link. -/
def HiddenLinksLead (fs : FileSystem) (root : Path) : Prop :=
  ∀ names trail id name child target, Stands fs root names trail id →
    (name, child) ∈ fs.entries id → isHidden name → fs.node? child = some (.link target) →
      ∃ next, fs.resolve (root.below (names ++ [name])) = .ok next ∧
        (fs.isDirectoryNode next → fs.isLocked next = false ∧ ∀ path, (next, path) ∉ trail)

section Inversion

variable {e : WalkError} {visit : Visit} {result : Except WalkError Arrival}

theorem Meets.of_error (h : Meets common (.error e) result) : result = .error e := by
  cases h
  rfl

theorem Meets.of_pass (h : Meets common (.ok (.pass visit)) result) :
    result = .ok (.pass visit) := by
  cases h
  rfl

theorem Meets.of_inside (h : Meets common (.ok (.inside id entries)) result) :
    common id ∧ ∃ entries', result = .ok (.inside id entries') := by
  cases h with
  | inside here => exact ⟨here, _, rfl⟩

variable (covers : Covers fs root names trail ((name, child) :: rest) tour)
include covers

theorem Covers.of_error
    (arrives : arrive fs root trail (isHidden name) (root.below (names ++ [name])) child =
      .error e) : tour = failed e := by
  cases covers with
  | stopped arrives' =>
    cases arrives.symm.trans arrives'
    rfl
  | passed arrives' => cases arrives.symm.trans arrives'
  | entered arrives' => cases arrives.symm.trans arrives'

theorem Covers.of_pass
    (arrives : arrive fs root trail (isHidden name) (root.below (names ++ [name])) child =
      .ok (.pass visit)) :
    ∃ after, tour = ⟨[visit], none⟩ ++ after ∧ Covers fs root names trail rest after := by
  cases covers with
  | stopped arrives' => cases arrives.symm.trans arrives'
  | passed arrives' later =>
    cases arrives.symm.trans arrives'
    exact ⟨_, rfl, later⟩
  | entered arrives' => cases arrives.symm.trans arrives'

theorem Covers.of_inside
    (arrives : arrive fs root trail (isHidden name) (root.below (names ++ [name])) child =
      .ok (.inside next entries)) :
    ∃ within after, tour = within ++ after ∧
      Covers fs root (names ++ [name]) ((next, root.below (names ++ [name])) :: trail) entries
        within ∧ Covers fs root names trail rest after := by
  cases covers with
  | stopped arrives' => cases arrives.symm.trans arrives'
  | passed arrives' => cases arrives.symm.trans arrives'
  | entered arrives' deeper later =>
    cases arrives.symm.trans arrives'
    exact ⟨_, _, rfl, deeper, later⟩

omit covers in
theorem CoversRoot.of_inside (covers : CoversRoot fs root tour)
    (arrives : enterRoot fs root = .ok (.inside id entries)) :
    Covers fs root [] [(id, root)] entries tour := by
  cases covers with
  | stopped arrives' => cases arrives.symm.trans arrives'
  | passed arrives' => cases arrives.symm.trans arrives'
  | entered arrives' covers =>
    cases arrives.symm.trans arrives'
    exact covers

end Inversion

section Skip

theorem arrive_hidden (lead : HiddenLinksLead fs root) (stands : Stands fs root names trail id)
    (entry : (name, child) ∈ fs.entries id) (hidden : isHidden name) :
    arrive fs root trail (isHidden name) (root.below (names ++ [name])) child =
      .ok (.pass (.hidden (root.below (names ++ [name])))) := by
  have identified : ∃ next,
      identify fs root trail (root.below (names ++ [name])) child = .ok next := by
    rcases link_or_plain fs child with ⟨target, link⟩ | plain
    · obtain ⟨next, resolved, harmless⟩ := lead _ _ _ _ _ _ stands entry hidden link
      refine ⟨next, ?_⟩
      unfold identify
      rw [link]
      dsimp only
      rw [resolved]
      dsimp only
      split
      · rename_i isDirectory
        obtain ⟨unlocked, off⟩ := harmless isDirectory
        have none : trail.find? (·.1 = next) = none := by
          rw [List.find?_eq_none]
          rintro ⟨other, path⟩ mem same
          cases of_decide_eq_true same
          exact off path mem
        simp [openNode, unlocked, none]
      · rfl
    · exact ⟨child, identify_plain plain⟩
  obtain ⟨next, identified⟩ := identified
  simp [arrive, identified, hidden]

theorem Covers.skip (lead : HiddenLinksLead fs root)
    (covers : Covers fs root names trail entries tour) (stands : Stands fs root names trail id)
    (inside : ∀ entry ∈ entries, entry ∈ fs.entries id) :
    shown entries = [] ∧ Matches tour {} ∨
      ∃ name child rest tour', isHidden name = false ∧
        shown entries = (name, child) :: shown rest ∧
        (∀ entry ∈ (name, child) :: rest, entry ∈ fs.entries id) ∧
        Covers fs root names trail ((name, child) :: rest) tour' ∧ Matches tour tour' := by
  induction entries generalizing tour with
  | nil =>
    cases covers
    exact .inl ⟨rfl, .refl _⟩
  | cons entry rest ih =>
    obtain ⟨name, child⟩ := entry
    cases hidden : isHidden name with
    | false =>
      exact .inr ⟨name, child, rest, tour, hidden, by simp [shown, hidden], inside, covers, .refl _⟩
    | true =>
      have past : shown ((name, child) :: rest) = shown rest := by simp [shown, hidden]
      have passes := arrive_hidden lead stands (inside _ List.mem_cons_self) hidden
      obtain ⟨after, rfl, later⟩ := covers.of_pass passes
      have same := matches_hidden (root.below (names ++ [name])) after
      rw [past]
      rcases ih later fun e mem => inside e (.tail _ mem) with ⟨none, rest_⟩ |
        ⟨name', child', rest', tour', visible, some, held, covers', rest_⟩
      · exact .inl ⟨none, same.trans rest_⟩
      · exact .inr ⟨name', child', rest', tour', visible, some, held, covers', same.trans rest_⟩

end Skip

theorem eq_of_increasing {α : Type} {r : α → α → Prop} {a b : List α}
    (asymm : ∀ x y, r x y → ¬r y x) (first : a.Pairwise r) (second : b.Pairwise r)
    (same : ∀ x, x ∈ a ↔ x ∈ b) : a = b := by
  have distinct {l : List α} (sorted : l.Pairwise r) : l.Nodup := by
    refine List.Pairwise.imp ?_ sorted
    rintro x _ less rfl
    exact asymm x x less less
  exact ((List.perm_ext_iff_of_nodup (distinct first) (distinct second)).mpr same).eq_of_pairwise
    (fun x y _ _ less more => absurd more (asymm x y less)) first second

section Lockstep

/-- Neither a root nor a visible link below it leads through anything in which two file systems
differ. -/
structure Apart (fs fs' : FileSystem) (common : NodeId → Prop) (root : Path) : Prop where
  start : PathAvoids fs fs' common root
  links : ∀ names trail id name child target, Stands fs root names trail id →
    (name, child) ∈ fs.entries id → isHidden name = false → fs.node? child = some (.link target) →
      PathAvoids fs fs' common (root.below (names ++ [name]))

theorem pathAvoids_child {directory : Path} (sound : fs.Sound) (alike : Alike fs fs' common)
    (avoids : PathAvoids fs fs' common directory) (opened : Opened fs directory id)
    (entry : (name, child) ∈ fs.entries id) (visible : isHidden name = false)
    (plain : ∀ target, fs.node? child ≠ some (.link target)) :
    PathAvoids fs fs' common (directory.child name) := by
  have valid := sound.named _ _ entry
  have here := (resolve_alike alike avoids).2 id opened.resolved
  have segments : (directory.child name).segments =
      directory.segmentNames.map .name ++ [.name name] := by
    rw [segments_eq, endsInSlash_child valid, segmentNames_child valid]
    simp
  unfold PathAvoids at avoids ⊢
  rw [segments_eq] at avoids
  rw [segments, start, isAbsolute_child valid]
  refine avoids.front.append fun left next leads => ?_
  obtain ⟨_, leads'⟩ := leadsTo_of_resolve opened.resolved
  cases (end_unique leads leads').2
  intro q onward n rest same
  rcases Relation.ReflTransGen.cases_head onward with rfl | ⟨next, step, later⟩
  · cases same
    exact alike.visible id name here visible
  · cases step with
    | entry =>
      cases leads_of_end later
      cases same
    | link enters link =>
      cases child_unique sound entry (entry_of_enter valid enters)
      exact absurd link (plain _)

structure Twins (fs fs' : FileSystem) (common : NodeId → Prop) (root : Path) : Prop where
  sound : fs.Sound
  sound' : fs'.Sound
  alike : Alike fs fs' common
  apart : Apart fs fs' common root
  lead : HiddenLinksLead fs root
  lead' : HiddenLinksLead fs' root

namespace Twins

variable (twins : Twins fs fs' common root)
include twins

theorem avoids_entry (stands : Stands fs root names trail id)
    (avoids : PathAvoids fs fs' common (root.below names))
    (entry : (name, child) ∈ fs.entries id) (visible : isHidden name = false) :
    PathAvoids fs fs' common (root.below (names ++ [name])) := by
  rcases link_or_plain fs child with ⟨target, link⟩ | plain
  · exact twins.apart.links _ _ _ _ _ _ stands entry visible link
  · rw [below_concat]
    exact pathAvoids_child twins.sound twins.alike avoids stands.opened entry visible plain

theorem avoids (stands : Stands fs root names trail id) :
    PathAvoids fs fs' common (root.below names) := by
  induction stands with
  | root => exact twins.apart.start
  | child above entry visible _ _ ih => exact twins.avoids_entry above ih entry visible

theorem shown_inOrder (here : common id) :
    shown (inOrder (fs.entries id)) = shown (inOrder (fs'.entries id)) := by
  have increasing := (increasing_inOrder (twins.sound.distinct id)).filter fun e => !isHidden e.1
  have increasing' := (increasing_inOrder (twins.sound'.distinct id)).filter fun e => !isHidden e.1
  have agree (entry : Bytes × NodeId) :
      entry ∈ shown (inOrder (fs.entries id)) ↔ entry ∈ shown (inOrder (fs'.entries id)) := by
    simp only [shown, List.mem_filter, mem_inOrder, Bool.not_eq_true']
    refine and_congr_left fun visible => ?_
    obtain ⟨same, _⟩ := twins.alike.visible id entry.1 here visible
    constructor
    · intro mem
      exact mem_of_lookup (same.symm.trans (lookup_of_mem mem (twins.sound.distinct id)))
    · intro mem
      exact mem_of_lookup (same.trans (lookup_of_mem mem (twins.sound'.distinct id)))
  exact eq_of_increasing (fun _ _ => List.lt_asymm) increasing increasing' agree

theorem meet (covers' : Covers fs' root names trail entries' tour')
    (visible : isHidden name = false) (same : shown ((name, child) :: rest) = shown entries')
    (here : common id) (stands : Stands fs root names trail id)
    (stands' : Stands fs' root names trail id) (entry : (name, child) ∈ fs.entries id)
    (inside' : ∀ entry ∈ entries', entry ∈ fs'.entries id) :
    ∃ rest' after', Covers fs' root names trail ((name, child) :: rest') after' ∧
      shown rest = shown rest' ∧ (∀ e ∈ (name, child) :: rest', e ∈ fs'.entries id) ∧
      Matches after' tour' ∧
      Meets common (arrive fs root trail (isHidden name) (root.below (names ++ [name])) child)
        (arrive fs' root trail (isHidden name) (root.below (names ++ [name])) child) := by
  have first : shown ((name, child) :: rest) = (name, child) :: shown rest := by
    simp [shown, visible]
  rw [first] at same
  have there : common child := by
    obtain ⟨_, held⟩ := twins.alike.visible id name here visible
    exact held child (lookup_of_mem entry (twins.sound.distinct id))
  have avoids := twins.avoids_entry stands (twins.avoids stands) entry visible
  have meets := arrive_alike twins.alike trail (isHidden name) twins.apart.start avoids there
  rcases covers'.skip twins.lead' stands' inside' with ⟨none, _⟩ |
    ⟨name', child', rest', after', _, some, held, covers', rest_⟩
  · cases same.trans none
  · obtain ⟨one, tail⟩ := List.cons.inj (same.trans some)
    cases one
    exact ⟨rest', after', covers', tail, held, rest_.symm, meets⟩

theorem covers_match (covers : Covers fs root names trail entries tour)
    (covers' : Covers fs' root names trail entries' tour') (same : shown entries = shown entries')
    (here : common id) (stands : Stands fs root names trail id)
    (stands' : Stands fs' root names trail id) (inside : ∀ entry ∈ entries, entry ∈ fs.entries id)
    (inside' : ∀ entry ∈ entries', entry ∈ fs'.entries id) : Matches tour tour' := by
  -- On the first tour. A hidden entry of it is passed on its own; at a visible one the other tour,
  -- past its own hidden entries, stands at the same.
  induction covers generalizing entries' tour' id with
  | done =>
    rcases covers'.skip twins.lead' stands' inside' with ⟨_, rest_⟩ | ⟨_, _, _, _, _, some, _⟩
    · exact rest_.symm
    · cases same.trans some
  | @stopped names trail name child rest e arrives =>
    have entry := inside _ List.mem_cons_self
    cases hidden : isHidden name with
    | true => cases (arrive_hidden twins.lead stands entry hidden).symm.trans arrives
    | false =>
      obtain ⟨rest', after', covers', _, _, rest_, meets⟩ :=
        twins.meet covers' hidden same here stands stands' entry inside'
      rw [arrives] at meets
      exact covers'.of_error meets.of_error ▸ rest_
  | @passed names trail name child rest visit after arrives later ih =>
    have entry := inside _ List.mem_cons_self
    have inside_ : ∀ e ∈ rest, e ∈ fs.entries id := fun e mem => inside e (.tail _ mem)
    cases hidden : isHidden name with
    | true =>
      cases (arrive_hidden twins.lead stands entry hidden).symm.trans arrives
      have past : shown ((name, child) :: rest) = shown rest := by simp [shown, hidden]
      exact (matches_hidden _ _).trans
        (ih covers' (past.symm.trans same) here stands stands' inside_ inside')
    | false =>
      obtain ⟨rest', after', covers', tail, held, rest_, meets⟩ :=
        twins.meet covers' hidden same here stands stands' entry inside'
      rw [arrives] at meets
      obtain ⟨after', rfl, later'⟩ := covers'.of_pass meets.of_pass
      have onward := ih later' tail here stands stands' inside_ fun e mem => held e (.tail _ mem)
      exact ((Matches.refl _).append onward).trans rest_
  | @entered names trail name child next entries rest within after arrives deeper later ih ih' =>
    have entry := inside _ List.mem_cons_self
    cases hidden : isHidden name with
    | true => cases (arrive_hidden twins.lead stands entry hidden).symm.trans arrives
    | false =>
      obtain ⟨rest', after', covers', tail, held, rest_, meets⟩ :=
        twins.meet covers' hidden same here stands stands' entry inside'
      rw [arrives] at meets
      obtain ⟨there, _, arrives'⟩ := meets.of_inside
      obtain ⟨within', after', rfl, deeper', later'⟩ := covers'.of_inside arrives'
      obtain ⟨deepen, listed⟩ := stands.enter twins.sound entry arrives
      obtain ⟨deepen', listed'⟩ := stands'.enter twins.sound' (held _ List.mem_cons_self) arrives'
      have inner : Matches within within' := by
        refine ih deeper' ?_ there deepen deepen' (fun e mem => mem_inOrder.mp (listed ▸ mem))
          fun e mem => mem_inOrder.mp (listed' ▸ mem)
        rw [listed, listed']
        exact twins.shown_inOrder there
      have onward := ih' later' tail here stands stands' (fun e mem => inside e (.tail _ mem))
        fun e mem => held e (.tail _ mem)
      exact (inner.append onward).trans rest_

theorem enterRoot_meets : Meets common (enterRoot fs root) (enterRoot fs' root) := by
  have start := twins.apart.start
  obtain ⟨same, held⟩ := resolveWith_alike twins.alike false start
  unfold enterRoot resolveLink
  rw [← same]
  cases there : fs.resolveWith false root with
  | error e =>
    dsimp only
    rw [fault_alike twins.alike root (some root) start]
    exact .error
  | ok id => exact arrive_alike twins.alike [] false start start (held id there)

theorem ofRoot_match : Matches (ofRoot fs root) (ofRoot fs' root) := by
  have meets := twins.enterRoot_meets
  generalize first : enterRoot fs root = arrival, second : enterRoot fs' root = arrival' at meets
  cases meets with
  | error =>
    rw [ofRoot, first, ofRoot, second]
    exact .refl _
  | pass =>
    rw [ofRoot, first, ofRoot, second]
    exact .refl _
  | inside here =>
    obtain ⟨opened, listed⟩ := enterRoot_inside first
    obtain ⟨opened', listed'⟩ := enterRoot_inside second
    have same : shown _ = shown _ := twins.shown_inOrder here
    rw [← listed, ← listed'] at same
    exact twins.covers_match ((coversRoot_ofRoot twins.sound root).of_inside first)
      ((coversRoot_ofRoot twins.sound' root).of_inside second) same here (.root opened)
      (.root opened') (fun e mem => mem_inOrder.mp (listed ▸ mem))
      fun e mem => mem_inOrder.mp (listed' ▸ mem)

end Twins

end Lockstep

theorem ofRoots_match {roots : List Path} (each : ∀ root ∈ roots, Twins fs fs' common root) :
    Matches (ofRoots fs roots) (ofRoots fs' roots) := by
  induction roots with
  | nil => exact .refl _
  | cons root roots ih =>
    obtain ⟨first, rest⟩ := List.forall_mem_cons.mp each
    exact (Matches.refl _).append (first.ofRoot_match.append (ih rest))

section Linkless

variable (linkless : ∀ id target, fs.node? id ≠ some (.link target))
include linkless

theorem apart_of_linkless (alike : Alike fs fs' common)
    (visible : ∀ name ∈ root.segmentNames, isHidden name = false) :
    Apart fs fs' common root :=
  ⟨pathAvoids_of_linkless alike linkless visible,
    fun _ _ _ _ child target _ _ _ link => absurd link (linkless child target)⟩

theorem hiddenLinksLead_of_linkless : HiddenLinksLead fs root :=
  fun _ _ _ _ child target _ _ _ link => absurd link (linkless child target)

end Linkless

end Tour

namespace Walk
open FileSystem Tour

/-- Hidden entries take no part in a walk as long as each hidden link leads somewhere: two file
systems that differ in nothing else give the same items. -/
theorem hidden_take_no_part {fs fs' : FileSystem} {common : NodeId → Prop} {roots : List Path}
    (sound : fs.Sound) (sound' : fs'.Sound) (alike : Alike fs fs' common)
    (apart : ∀ root ∈ roots, Apart fs fs' common root)
    (lead : ∀ root ∈ roots, HiddenLinksLead fs root)
    (lead' : ∀ root ∈ roots, HiddenLinksLead fs' root) :
    ∃ items, Gives fs (.ofRoots roots) items ∧ Gives fs' (.ofRoots roots) items := by
  have each : ∀ root ∈ roots, Twins fs fs' common root := fun root mem =>
    ⟨sound, sound', alike, apart root mem, lead root mem, lead' root mem⟩
  have same := ofRoots_match each
  have items : (Tour.ofRoots fs roots).items = (Tour.ofRoots fs' roots).items := by
    rw [Tour.items, Tour.items, same.files, same.failure]
  exact ⟨_, gives_items sound roots, items ▸ gives_items sound' roots⟩

def plain : FileSystem where
  nodes := #[.directory 0 [(Text.encode "d", 1)], .directory 0 [(Text.encode "a", 2)],
    .file "x".toUTF8]
  root := 0
  home := 0

def dangling : FileSystem where
  nodes := #[.directory 0 [(Text.encode "d", 1)],
    .directory 0 [(Text.encode ".z", 3), (Text.encode "a", 2)], .file "x".toUTF8,
    .link (.ofString "nowhere")]
  root := 0
  home := 0

theorem plain_sound : plain.Sound :=
  FileSystem.sound_of_numbered (by decide) (by decide) (by decide +kernel)

theorem plain_linkless (id : NodeId) (target : Path) : plain.node? id ≠ some (.link target) :=
  linkless_of_numbered (by decide) id target

/-- A hidden entry ends the walk, and the file beside it is not found. -/
theorem hidden_link_ends_walk :
    plain.Sound ∧ dangling.Sound ∧ Alike plain dangling (· < 3) ∧
      (∀ root ∈ [Path.ofString "d"], Apart plain dangling (· < 3) root) ∧
      Gives plain (.ofRoots [.ofString "d"]) [.ok ⟨.ofString "d/a", .ofString "a"⟩] ∧
      Gives dangling (.ofRoots [.ofString "d"])
        [.error ⟨.ofString "d/.z", .stat (some (.ofString "d/.z")) .notFound⟩] := by
  have sound : dangling.Sound :=
    FileSystem.sound_of_numbered (by decide) (by decide) (by decide +kernel)
  have alike : Alike plain dangling (· < 3) :=
    alike_of_numbered (by decide) (by decide) (by decide +kernel) (by decide +kernel)
      (by decide +kernel) (by decide +kernel) (by decide +kernel)
  have apart : Apart plain dangling (· < 3) (.ofString "d") :=
    apart_of_linkless plain_linkless alike (by decide +kernel)
  have items : (Tour.ofRoots plain [.ofString "d"]).items =
      [.ok ⟨.ofString "d/a", .ofString "a"⟩] := by cbv
  have items' : (Tour.ofRoots dangling [.ofString "d"]).items =
      [.error ⟨.ofString "d/.z", .stat (some (.ofString "d/.z")) .notFound⟩] := by cbv
  exact ⟨plain_sound, sound, alike, by simpa using apart, items ▸ gives_items plain_sound _,
    items' ▸ gives_items sound _⟩

def harboring : FileSystem where
  nodes := #[.directory 0 [(Text.encode "d", 1)],
    .directory 0 [(Text.encode ".c", 4), (Text.encode ".git", 3), (Text.encode "a", 2)],
    .file "x".toUTF8, .directory 1 [(Text.encode "y", 5)], .link (.ofString "a"),
    .file "y".toUTF8]
  root := 0
  home := 0
  locked := [3]

theorem harboring_stands {names : List Bytes} {trail : Trail} {id : NodeId}
    (stands : Tour.Stands harboring (.ofString "d") names trail id) : names = [] ∧ id = 1 := by
  induction stands with
  | root opened =>
    have there : harboring.resolve (.ofString "d") = .ok 1 := by cbv
    cases opened.resolved.symm.trans there
    exact ⟨rfl, rfl⟩
  | @child names trail id child next name above entry visible identified opened ih =>
    obtain ⟨rfl, rfl⟩ := ih
    have only : ∀ e ∈ harboring.entries 1, Path.isHidden e.1 = false →
        harboring.isFileNode e.2 := by decide +kernel
    obtain ⟨content, file⟩ := file_of_isFileNode (only _ entry visible)
    have isDirectory := opened.isDirectory
    rcases identify_ok identified with ⟨⟨target, link⟩, _⟩ | ⟨_, rfl⟩
    · cases file.symm.trans link
    · simp [isDirectoryNode, file] at isDirectory

theorem harboring_hidden_take_no_part :
    plain.Sound ∧ harboring.Sound ∧ Alike plain harboring (· < 3) ∧
      (∀ root ∈ [Path.ofString "d"], Apart plain harboring (· < 3) root) ∧
      (∀ root ∈ [Path.ofString "d"], HiddenLinksLead plain root) ∧
      (∀ root ∈ [Path.ofString "d"], HiddenLinksLead harboring root) ∧
      ∃ items, Gives plain (.ofRoots [.ofString "d"]) items ∧
        Gives harboring (.ofRoots [.ofString "d"]) items := by
  have sound : harboring.Sound :=
    FileSystem.sound_of_numbered (by decide) (by decide) (by decide +kernel)
  have alike : Alike plain harboring (· < 3) :=
    alike_of_numbered (by decide) (by decide) (by decide +kernel) (by decide +kernel)
      (by decide +kernel) (by decide +kernel) (by decide +kernel)
  have apart : ∀ root ∈ [Path.ofString "d"], Apart plain harboring (· < 3) root := by
    simpa using apart_of_linkless plain_linkless alike (by decide +kernel)
  have lead : ∀ root ∈ [Path.ofString "d"], HiddenLinksLead plain root := fun _ _ =>
    hiddenLinksLead_of_linkless plain_linkless
  have lead' : ∀ root ∈ [Path.ofString "d"], HiddenLinksLead harboring root := by
    intro root mem names trail id name child target stands entry hidden link
    cases List.mem_singleton.mp mem
    obtain ⟨rfl, rfl⟩ := harboring_stands stands
    have only : ∀ e ∈ harboring.entries 1, Path.isHidden e.1 →
        e.1 = Text.encode ".c" ∨ harboring.isDirectoryNode e.2 := by decide +kernel
    rcases only _ entry hidden with same | isDirectory
    · cases same
      exact ⟨2, by cbv, fun isDirectory => absurd isDirectory (by decide)⟩
    · simp [isDirectoryNode, link] at isDirectory
  exact ⟨plain_sound, sound, alike, apart, lead, lead',
    hidden_take_no_part plain_sound sound alike apart lead lead'⟩

end Walk

end ModuleTree
