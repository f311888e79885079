import Mathlib.Logic.Relation
import ModuleTree.FileSystem.Operations
/- Following a path, one step at a time. Where a path leads is where its steps lead one after
   another; a path that is put together leads on from where its front leads. -/
namespace ModuleTree.FileSystem

/-- A place on the way: links that may still be followed, the node reached so far, and the
steps that are left. -/
structure Place where
  budget : Nat
  current : NodeId
  segments : List Segment

namespace Place

def followed (fs : FileSystem) (lastLink : Bool) (p : Place) : Except IoError Spot :=
  fs.follow lastLink p.budget p.current p.segments

def more (p : Place) (segments : List Segment) : Place :=
  { p with segments := p.segments ++ segments }

end Place

inductive Goes (fs : FileSystem) : Place → Place → Prop where
  | directory {budget : Nat} {current : NodeId} {rest : List Segment}
      (here : fs.isDirectoryNode current) :
      Goes fs ⟨budget, current, .directoryOnly :: rest⟩ ⟨budget, current, rest⟩
  | entry {budget : Nat} {current id : NodeId} {name : Bytes} {rest : List Segment}
      (enters : fs.enter current name = .ok (some id))
      (plain : ∀ target, fs.node? id ≠ some (.link target)) :
      Goes fs ⟨budget, current, .name name :: rest⟩ ⟨budget, id, rest⟩
  | link {budget : Nat} {current id : NodeId} {name : Bytes} {rest : List Segment} {target : Path}
      (enters : fs.enter current name = .ok (some id)) (link : fs.node? id = some (.link target)) :
      Goes fs ⟨budget + 1, current, .name name :: rest⟩
        ⟨budget, if target.isAbsolute then fs.root else current, target.segments ++ rest⟩

def Leads (fs : FileSystem) : Place → Place → Prop := Relation.ReflTransGen fs.Goes

inductive Arrives (fs : FileSystem) (lastLink : Bool) : Place → Spot → Prop where
  | node {budget : Nat} {id : NodeId} : Arrives fs lastLink ⟨budget, id, []⟩ (.node id)
  | link {budget : Nat} {current id : NodeId} {name : Bytes} {target : Path}
      (kept : lastLink = false) (enters : fs.enter current name = .ok (some id))
      (link : fs.node? id = some (.link target)) :
      Arrives fs lastLink ⟨budget, current, [.name name]⟩ (.node id)
  | gap {budget : Nat} {current : NodeId} {name : Bytes} {rest : List Segment}
      (missing : fs.enter current name = .ok none) (last : ∀ s ∈ rest, s = .directoryOnly) :
      Arrives fs lastLink ⟨budget, current, .name name :: rest⟩
        (.gap current name (!rest.isEmpty))

section Steps

variable {fs : FileSystem} {lastLink : Bool} {p q r : Place} {spot : Spot}

theorem goes_unique (first : fs.Goes p q) (second : fs.Goes p r) : q = r := by
  cases first with
  | directory => cases second; rfl
  | entry enters plain =>
    cases second with
    | entry enters' =>
      cases enters.symm.trans enters'
      rfl
    | link enters' link =>
      cases enters.symm.trans enters'
      exact absurd link (plain _)
  | link enters link =>
    cases second with
    | entry enters' plain =>
      cases enters.symm.trans enters'
      exact absurd link (plain _)
    | link enters' link' =>
      cases enters.symm.trans enters'
      cases link.symm.trans link'
      rfl

theorem leads_linear (first : fs.Leads p q) (second : fs.Leads p r) :
    fs.Leads q r ∨ fs.Leads r q := by
  induction first using Relation.ReflTransGen.head_induction_on with
  | refl => exact .inl second
  | head step rest ih =>
    rcases Relation.ReflTransGen.cases_head second with same | ⟨next, step', rest'⟩
    · subst same
      exact .inr (.head step rest)
    · cases goes_unique step step'
      exact ih rest'

theorem leads_of_end {budget : Nat} {id : NodeId} (h : fs.Leads ⟨budget, id, []⟩ q) :
    q = ⟨budget, id, []⟩ := by
  rcases Relation.ReflTransGen.cases_head h with same | ⟨next, step, _⟩
  · exact same.symm
  · cases step

theorem end_unique {b b' : Nat} {id id' : NodeId} (first : fs.Leads p ⟨b, id, []⟩)
    (second : fs.Leads p ⟨b', id', []⟩) : b = b' ∧ id = id' := by
  rcases leads_linear first second with on | on
  · cases leads_of_end on
    exact ⟨rfl, rfl⟩
  · cases leads_of_end on
    exact ⟨rfl, rfl⟩

theorem goes_more (step : fs.Goes p q) (later : List Segment) :
    fs.Goes (p.more later) (q.more later) := by
  cases step with
  | directory here => exact .directory here
  | entry enters plain => exact .entry enters plain
  | link enters link =>
    unfold Place.more
    rw [List.append_assoc]
    exact .link enters link

theorem leads_more (h : fs.Leads p q) (later : List Segment) :
    fs.Leads (p.more later) (q.more later) := by
  induction h with
  | refl => exact .refl
  | tail _ step ih => exact .tail ih (goes_more step later)

theorem goes_of_more {later : List Segment} (step : fs.Goes (p.more later) q)
    (some : p.segments ≠ []) : ∃ r, fs.Goes p r ∧ q = r.more later := by
  obtain ⟨budget, current, segments⟩ := p
  cases segments with
  | nil => contradiction
  | cons segment rest =>
    cases step with
    | directory here => exact ⟨_, .directory here, rfl⟩
    | entry enters plain => exact ⟨_, .entry enters plain, rfl⟩
    | link enters link =>
      refine ⟨_, .link enters link, ?_⟩
      simp [Place.more]

theorem leads_split {later : List Segment} (h : fs.Leads (p.more later) q) :
    (∃ r, fs.Leads p r ∧ q = r.more later) ∨
      ∃ budget id, fs.Leads p ⟨budget, id, []⟩ ∧ fs.Leads ⟨budget, id, later⟩ q := by
  induction h with
  | refl => exact .inl ⟨p, .refl, rfl⟩
  | tail _ step ih =>
    rcases ih with ⟨r, front, same⟩ | ⟨budget, id, front, rest⟩
    · subst same
      by_cases done : r.segments = []
      · obtain ⟨budget, id, segments⟩ := r
        subst done
        exact .inr ⟨budget, id, front, .single step⟩
      · obtain ⟨r', step', same⟩ := goes_of_more step done
        exact .inl ⟨r', .tail front step', same⟩
    · exact .inr ⟨budget, id, front, .tail rest step⟩

theorem leads_append {b b' : Nat} {current id : NodeId} {front rest : List Segment} :
    fs.Leads ⟨b, current, front ++ rest⟩ ⟨b', id, []⟩ ↔
      ∃ budget middle, fs.Leads ⟨b, current, front⟩ ⟨budget, middle, []⟩ ∧
        fs.Leads ⟨budget, middle, rest⟩ ⟨b', id, []⟩ := by
  constructor
  · intro h
    rcases leads_split (p := ⟨b, current, front⟩) h with ⟨r, lead, same⟩ | split
    · obtain ⟨budget, middle, segments⟩ := r
      obtain ⟨rfl, rfl, none⟩ := Place.mk.inj same
      obtain ⟨empty, empty'⟩ := List.append_eq_nil_iff.mp none.symm
      subst empty empty'
      exact ⟨_, _, lead, .refl⟩
    · exact split
  · rintro ⟨budget, middle, lead, rest_⟩
    exact (leads_more lead rest).trans rest_

theorem follow_entry {budget : Nat} {current id : NodeId} {name : Bytes} {rest : List Segment}
    (enters : fs.enter current name = .ok (some id))
    (plain : ∀ target, fs.node? id ≠ some (.link target)) :
    fs.follow lastLink budget current (.name name :: rest) = fs.follow lastLink budget id rest := by
  rw [follow, enters]
  dsimp only
  cases node : fs.node? id with
  | none => rfl
  | some found =>
    cases found with
    | link target => exact absurd node (plain target)
    | _ => rfl

theorem follow_link {budget : Nat} {current id : NodeId} {name : Bytes} {rest : List Segment}
    {target : Path} (enters : fs.enter current name = .ok (some id))
    (link : fs.node? id = some (.link target)) (onward : lastLink = true ∨ rest ≠ []) :
    fs.follow lastLink (budget + 1) current (.name name :: rest) =
      fs.follow lastLink budget (if target.isAbsolute then fs.root else current)
        (target.segments ++ rest) := by
  have goes_on : (rest.isEmpty && !lastLink) = false := by
    rcases onward with wanted | some
    · simp [wanted]
    · simp [some]
  simp [follow, enters, link, goes_on]

theorem followed_of_goes (step : fs.Goes p q) (later : List Segment)
    (onward : lastLink = true ∨ later ≠ []) :
    (p.more later).followed fs lastLink = (q.more later).followed fs lastLink := by
  cases step with
  | directory here => simp [Place.followed, Place.more, follow, here]
  | entry enters plain => exact follow_entry enters plain
  | @link budget current id name rest target enters link =>
    have further : lastLink = true ∨ rest ++ later ≠ [] := by
      rcases onward with wanted | some
      · exact .inl wanted
      · exact .inr (by simp [some])
    unfold Place.followed Place.more
    rw [List.append_assoc]
    exact follow_link enters link further

theorem followed_of_leads (h : fs.Leads p q) (later : List Segment)
    (onward : lastLink = true ∨ later ≠ []) :
    (p.more later).followed fs lastLink = (q.more later).followed fs lastLink := by
  induction h with
  | refl => rfl
  | tail _ step ih => exact ih.trans (followed_of_goes step later onward)

theorem arrives_of_followed {budget : Nat} {current : NodeId} {segments : List Segment}
    (h : fs.follow lastLink budget current segments = .ok spot) :
    ∃ q, fs.Leads ⟨budget, current, segments⟩ q ∧ fs.Arrives lastLink q spot := by
  induction budget, current, segments using follow.induct fs lastLink with
  | case1 budget current =>
    rw [follow] at h
    cases h
    exact ⟨_, .refl, .node⟩
  | case2 budget current rest here ih =>
    rw [follow, if_pos here] at h
    obtain ⟨q, leads, arrives⟩ := ih h
    exact ⟨q, .head (.directory here) leads, arrives⟩
  | case3 budget current rest here =>
    rw [follow, if_neg here] at h
    cases h
  | case4 budget current name rest e enters => simp [follow, enters] at h
  | case5 budget current name rest missing last =>
    simp only [follow, missing, last, if_true] at h
    cases h
    exact ⟨_, .refl, .gap missing (by simpa using last)⟩
  | case6 budget current name rest missing last =>
    simp only [follow, missing] at h
    rw [if_neg last] at h
    cases h
  | case7 budget current name rest id enters target link last =>
    simp only [follow, enters, link, last, if_true] at h
    cases h
    obtain ⟨none, kept⟩ : rest = [] ∧ lastLink = false := by simpa using last
    subst none
    exact ⟨_, .refl, .link kept enters link⟩
  | case8 current name rest id enters target link onward =>
    simp [follow, enters, link, onward] at h
  | case9 current name rest id enters target link onward budget ih =>
    have further : lastLink = true ∨ rest ≠ [] := by
      cases rest with
      | nil => exact .inl (by simpa using onward)
      | cons _ _ => exact .inr (List.cons_ne_nil _ _)
    rw [follow_link enters link further] at h
    rw [dite_eq_ite] at ih
    obtain ⟨q, leads, arrives⟩ := ih h
    exact ⟨q, .head (.link enters link) leads, arrives⟩
  | case10 budget current name rest id enters plain ih =>
    rw [follow_entry enters plain] at h
    obtain ⟨q, leads, arrives⟩ := ih h
    exact ⟨q, .head (.entry enters plain) leads, arrives⟩

theorem follow_node_iff {budget : Nat} {current id : NodeId} {segments : List Segment} :
    fs.follow true budget current segments = .ok (.node id) ↔
      ∃ left, fs.Leads ⟨budget, current, segments⟩ ⟨left, id, []⟩ := by
  constructor
  · intro h
    obtain ⟨q, leads, arrives⟩ := arrives_of_followed h
    cases arrives with
    | node => exact ⟨_, leads⟩
    | link kept => cases kept
  · rintro ⟨left, leads⟩
    have same : Place.followed fs true _ = Place.followed fs true _ :=
      followed_of_leads leads [] (.inl rfl)
    simpa [Place.followed, Place.more, follow] using same

theorem followed_of_end {id : NodeId} {left : Nat} (leads : fs.Leads p ⟨left, id, []⟩) :
    ∃ there, p.followed fs false = .ok (.node there) := by
  induction leads using Relation.ReflTransGen.head_induction_on with
  | refl => exact ⟨id, by simp [Place.followed, follow]⟩
  | head step _ ih =>
    obtain ⟨there, found⟩ := ih
    cases step with
    | directory here => exact ⟨there, by simpa [Place.followed, follow, here] using found⟩
    | entry enters plain => exact ⟨there, (follow_entry enters plain).trans found⟩
    | @link budget current other name rest target enters link =>
      -- A link at the end is where the path leads when it is not followed.
      by_cases last : rest = []
      · subst last
        exact ⟨other, by simp [Place.followed, follow, enters, link]⟩
      · exact ⟨there, (follow_link enters link (.inr last)).trans found⟩

end Steps

section Paths

variable {fs : FileSystem} {p : Path} {names front rest : List Bytes} {id : NodeId}

/-- From where a path starts these names lead to this node. -/
def LeadsTo (fs : FileSystem) (p : Path) (names : List Bytes) (id : NodeId) : Prop :=
  ∃ left, fs.Leads ⟨linkLimit, fs.start p, names.map .name⟩ ⟨left, id, []⟩

theorem leadsTo_unique {id' : NodeId} (first : fs.LeadsTo p names id)
    (second : fs.LeadsTo p names id') : id = id' := by
  obtain ⟨_, leads⟩ := first
  obtain ⟨_, leads'⟩ := second
  exact (end_unique leads leads').2

theorem leadsTo_append : fs.LeadsTo p (front ++ rest) id ↔
    ∃ left left' middle,
      fs.Leads ⟨linkLimit, fs.start p, front.map .name⟩ ⟨left, middle, []⟩ ∧
        fs.Leads ⟨left, middle, rest.map .name⟩ ⟨left', id, []⟩ := by
  unfold LeadsTo
  rw [List.map_append]
  constructor
  · rintro ⟨left', leads⟩
    obtain ⟨left, middle, first, second⟩ := leads_append.mp leads
    exact ⟨left, left', middle, first, second⟩
  · rintro ⟨left, left', middle, first, second⟩
    exact ⟨left', leads_append.mpr ⟨left, middle, first, second⟩⟩

theorem leadsTo_front (h : fs.LeadsTo p (front ++ rest) id) :
    ∃ middle, fs.LeadsTo p front middle := by
  obtain ⟨left, _, middle, first, _⟩ := leadsTo_append.mp h
  exact ⟨middle, left, first⟩

theorem segments_eq (p : Path) : p.segments =
    p.segmentNames.map .name ++ if p.endsInSlash then [.directoryOnly] else [] := by
  unfold Path.segments
  split <;> simp

theorem resolveWith_iff {lastLink : Bool} : fs.resolveWith lastLink p = .ok id ↔
    refuse? p = none ∧ fs.follow lastLink linkLimit (fs.start p) p.segments = .ok (.node id) := by
  rw [resolveWith, spot]
  cases refuse? p with
  | some e => simp
  | none =>
    dsimp only
    cases fs.follow lastLink linkLimit (fs.start p) p.segments with
    | error e => simp
    | ok spot => cases spot <;> simp

theorem resolve_iff : fs.resolve p = .ok id ↔
    refuse? p = none ∧ fs.LeadsTo p p.segmentNames id ∧
      (p.endsInSlash → fs.isDirectoryNode id) := by
  have spelled : fs.resolve p = .ok id ↔
      refuse? p = none ∧ ∃ left, fs.Leads ⟨linkLimit, fs.start p, p.segments⟩ ⟨left, id, []⟩ := by
    rw [← follow_node_iff]
    exact resolveWith_iff
  rw [spelled, segments_eq]
  apply and_congr_right
  intro _
  by_cases slashed : p.endsInSlash
  · rw [if_pos slashed]
    constructor
    · rintro ⟨left, leads⟩
      obtain ⟨left, middle, first, second⟩ := leads_append.mp leads
      rcases Relation.ReflTransGen.cases_head second with same | ⟨next, step, rest⟩
      · cases same
      · cases step with
        | directory here =>
          cases leads_of_end rest
          exact ⟨⟨left, first⟩, fun _ => here⟩
    · rintro ⟨⟨left, leads⟩, directory⟩
      exact ⟨left, leads_append.mpr ⟨left, id, leads, .single (.directory (directory slashed))⟩⟩
  · rw [if_neg slashed, List.append_nil]
    exact ⟨fun leads => ⟨leads, fun h => absurd h slashed⟩, fun h => h.1⟩

theorem pathExists_iff : fs.pathExists p = true ↔ ∃ id, fs.resolve p = .ok id := by
  unfold pathExists
  cases fs.resolve p <;> simp [Except.isOk, Except.toBool]

theorem isDirectory_iff :
    fs.isDirectory p = true ↔ ∃ id, fs.resolve p = .ok id ∧ fs.isDirectoryNode id = true := by
  unfold isDirectory
  cases fs.resolve p <;> simp

theorem isDirectory_of_resolve (h : fs.resolve p = .ok id) :
    fs.isDirectory p = fs.isDirectoryNode id := by
  simp [isDirectory, h]

theorem leadsTo_of_resolve (h : fs.resolve p = .ok id) : fs.LeadsTo p p.segmentNames id :=
  (resolve_iff.mp h).2.1

end Paths

end ModuleTree.FileSystem
