import ModuleTree.Proofs.FileSystem.Tree
import ModuleTree.Proofs.Path.Below
/- Where names lead when each link on the way is followed. This does not depend on how the
   directory they start from is written, nor on how many links may be followed. -/
namespace ModuleTree.FileSystem

inductive Denotes (fs : FileSystem) (directory child : NodeId) : NodeId → Prop where
  | itself (plain : ∀ target, fs.node? child ≠ some (.link target)) :
      Denotes fs directory child child
  | link {target : Path} {budget left : Nat} {id : NodeId}
      (link : fs.node? child = some (.link target))
      (leads : fs.Leads ⟨budget, if target.isAbsolute then fs.root else directory,
        target.segments⟩ ⟨left, id, []⟩) :
      Denotes fs directory child id

/-- Names lead from a directory to a node, through what the entries on the way stand for. -/
inductive Reaches (fs : FileSystem) : NodeId → List Bytes → NodeId → Prop where
  | here {top : NodeId} : Reaches fs top [] top
  | step {top child next id : NodeId} {name : Bytes} {names : List Bytes}
      (entry : (name, child) ∈ fs.entries top) (denotes : fs.Denotes top child next)
      (rest : Reaches fs next names id) : Reaches fs top (name :: names) id

variable {fs : FileSystem} {top middle id id' child : NodeId} {name : Bytes}
  {names front rest : List Bytes}

theorem link_or_plain (fs : FileSystem) (id : NodeId) :
    (∃ target, fs.node? id = some (.link target)) ∨
      ∀ target, fs.node? id ≠ some (.link target) := by
  by_cases link : ∃ target, fs.node? id = some (.link target)
  · exact .inl link
  · exact .inr fun target h => link ⟨target, h⟩

theorem leads_richer {p q : Place} (h : fs.Leads p q) (more : Nat) :
    fs.Leads ⟨p.budget + more, p.current, p.segments⟩ ⟨q.budget + more, q.current, q.segments⟩ := by
  induction h with
  | refl => exact .refl
  | tail _ step ih =>
    apply ih.tail
    cases step with
    | directory here => exact .directory here
    | entry enters plain => exact .entry enters plain
    | @link budget _ _ _ _ _ enters link =>
      dsimp only
      rw [Nat.add_right_comm budget 1 more]
      exact .link enters link

theorem leads_unique {segments : List Segment} {b b' left left' : Nat}
    (first : fs.Leads ⟨b, top, segments⟩ ⟨left, id, []⟩)
    (second : fs.Leads ⟨b', top, segments⟩ ⟨left', id', []⟩) : id = id' := by
  have first := leads_richer first b'
  have second := leads_richer second b
  dsimp only at first second
  rw [Nat.add_comm b' b] at second
  exact (end_unique first second).2

theorem denotes_unique (first : fs.Denotes top child id) (second : fs.Denotes top child id') :
    id = id' := by
  cases first with
  | itself plain =>
    cases second with
    | itself => rfl
    | link link => exact absurd link (plain _)
  | link link leads =>
    cases second with
    | itself plain => exact absurd link (plain _)
    | link link' leads' =>
      cases link.symm.trans link'
      exact leads_unique leads leads'

theorem child_unique (sound : fs.Sound) {child' : NodeId} (first : (name, child) ∈ fs.entries top)
    (second : (name, child') ∈ fs.entries top) : child = child' := by
  have one := lookup_of_mem first (sound.distinct top)
  have other := lookup_of_mem second (sound.distinct top)
  exact Option.some.inj (one.symm.trans other)

theorem reaches_append :
    fs.Reaches top (front ++ rest) id ↔
      ∃ middle, fs.Reaches top front middle ∧ fs.Reaches middle rest id := by
  constructor
  · intro h
    induction front generalizing top with
    | nil => exact ⟨top, .here, h⟩
    | cons name front ih =>
      cases h with
      | step entry denotes onward =>
        obtain ⟨middle, first, second⟩ := ih onward
        exact ⟨middle, .step entry denotes first, second⟩
  · rintro ⟨middle, first, second⟩
    induction first with
    | here => exact second
    | step entry denotes _ ih => exact .step entry denotes (ih second)

theorem reaches_single (entry : (name, child) ∈ fs.entries top)
    (denotes : fs.Denotes top child id) : fs.Reaches top [name] id :=
  .step entry denotes .here

theorem names_of_reaches (sound : fs.Sound) (h : fs.Reaches top names id) :
    ∀ name ∈ names, Path.IsName name := by
  induction h with
  | here => simp
  | step entry _ _ ih => exact List.forall_mem_cons.mpr ⟨sound.named _ _ entry, ih⟩

theorem reaches_unique (sound : fs.Sound) (first : fs.Reaches top names id)
    (second : fs.Reaches top names id') : id = id' := by
  induction first with
  | here =>
    cases second
    rfl
  | step entry denotes _ ih =>
    cases second with
    | step entry' denotes' rest' =>
      cases child_unique sound entry entry'
      cases denotes_unique denotes denotes'
      exact ih rest'

theorem reaches_of_leads (valid : ∀ name ∈ names, Path.IsName name) {left left' : Nat}
    (h : fs.Leads ⟨left, top, names.map .name⟩ ⟨left', id, []⟩) : fs.Reaches top names id := by
  induction names generalizing left top with
  | nil =>
    cases leads_of_end h
    exact .here
  | cons name names ih =>
    obtain ⟨here, later⟩ := List.forall_mem_cons.mp valid
    rw [List.map_cons] at h
    rcases Relation.ReflTransGen.cases_head h with same | ⟨next, step, onward⟩
    · cases same
    · cases step with
      | entry enters plain =>
        exact .step (entry_of_enter here enters) (.itself plain) (ih later onward)
      | link enters link =>
        obtain ⟨budget, middle, first, second⟩ := leads_append.mp onward
        exact .step (entry_of_enter here enters) (.link link first) (ih later second)

theorem reaches_of_resolve {p : Path} (valid : ∀ name ∈ names, Path.IsName name)
    (from_ : fs.resolve p = .ok top) (h : fs.resolve (p.below names) = .ok id) :
    fs.Reaches top names id := by
  have start : fs.start (p.below names) = fs.start p := by
    rw [FileSystem.start, FileSystem.start, Path.isAbsolute_below valid]
  obtain ⟨left, leads⟩ := leadsTo_of_resolve h
  rw [start, Path.segmentNames_below valid, List.map_append] at leads
  obtain ⟨budget, middle, first, second⟩ := leads_append.mp leads
  obtain ⟨left', leads'⟩ := leadsTo_of_resolve from_
  cases (end_unique first leads').2
  exact reaches_of_leads valid second

end ModuleTree.FileSystem
