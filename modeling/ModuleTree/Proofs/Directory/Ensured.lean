import ModuleTree.Proofs.FileSystem.Furnished
import ModuleTree.Proofs.FileSystem.Rewritten
import ModuleTree.Proofs.Procedure
import ModuleTree.Run.World
/- Making sure that a directory is there. What is made are directories of the path itself and of
   its parents, and only where nothing is; where one of them cannot be made, all above it are
   there, and nothing is made at it or below it. -/
namespace ModuleTree

theorem World.run_pathExists (p : Path) (w : World) :
    (Procedure.call (.pathExists p)).run answer w = (w.files.pathExists p, w) := rfl

namespace FileSystem
open ModuleTree.Path

inductive Makes (fs : FileSystem) (p : Path) : Except StreamError Unit → FileSystem → Prop where
  | made {fs' : FileSystem} (made : fs.makeDirectory p = .ok fs') : Makes fs p (.ok ()) fs'
  | found (stands : fs.makeDirectory p = .error .alreadyExists) (isDirectory : fs.isDirectory p) :
      Makes fs p (.ok ()) fs
  | failed {e : IoError} (refused : fs.makeDirectory p = .error e)
      (other : e = .alreadyExists → fs.isDirectory p = false) :
      Makes fs p (.error ⟨.file p, .createDirectory, e⟩) fs

inductive Ensures (fs : FileSystem) : Path → Except StreamError Unit → FileSystem → Prop where
  | standing {p : Path} (there : p.isEmpty = true ∨ fs.pathExists p = true) :
      Ensures fs p (.ok ()) fs
  | first {p : Path} {outcome : Except StreamError Unit} {fs' : FileSystem}
      (named : p.isEmpty = false) (missing : fs.pathExists p = false) (top : p.parent? = none)
      (makes : fs.Makes p outcome fs') : Ensures fs p outcome fs'
  | blocked {p parent : Path} {e : StreamError} {fs' : FileSystem} (named : p.isEmpty = false)
      (missing : fs.pathExists p = false) (up : p.Up parent)
      (above : Ensures fs parent (.error e) fs') : Ensures fs p (.error e) fs'
  | next {p parent : Path} {outcome : Except StreamError Unit} {middle fs' : FileSystem}
      (named : p.isEmpty = false) (missing : fs.pathExists p = false) (up : p.Up parent)
      (above : Ensures fs parent (.ok ()) middle) (makes : middle.Makes p outcome fs') :
      Ensures fs p outcome fs'

section Course

theorem makes_of_perform (p : Path) (w : World) :
    w.files.Makes p (w.perform (createDirectory p)).1 (w.perform (createDirectory p)).2.files := by
  unfold createDirectory World.perform
  rw [Procedure.run_bind, Procedure.run_bind]
  simp only [Procedure.run, Procedure.call, World.answer, World.note]
  cases made : w.files.makeDirectory p with
  | ok files => exact .made made
  | error e =>
    cases e with
    | alreadyExists =>
      simp only [Except.map, World.changing]
      rw [Procedure.run_bind]
      split
      · rename_i there
        exact .found made there
      · rename_i there
        exact .failed made fun _ => Bool.eq_false_iff.mpr there
    | _ => exact .failed made nofun

theorem ensures_of_chain {chain : List Path} {p : Path} (same : p.chain = chain) (w : World) :
    w.files.Ensures p (w.perform (ensureChain chain)).1
      (w.perform (ensureChain chain)).2.files := by
  -- On the chain. What is behind its first path is the chain of the parent.
  induction chain generalizing p w with
  | nil => cases same
  | cons head parents ih =>
    rw [chain_eq] at same
    obtain ⟨rfl, above⟩ := List.cons.inj same
    unfold ensureChain
    split
    · rename_i empty
      exact .standing (.inl empty)
    · rename_i named
      have named : p.isEmpty = false := by simpa using named
      rw [World.perform, Procedure.run_bind, World.run_pathExists]
      split
      · rename_i there
        exact .standing (.inr there)
      · rename_i missing
        have missing : w.files.pathExists p = false := Bool.eq_false_iff.mpr missing
        rw [Procedure.run_bind]
        cases up : p.parent? with
        | none =>
          rw [up] at above
          subst above
          exact .first named missing up (makes_of_perform p w)
        | some parent =>
          rw [up] at above
          have ensured := ih above w
          unfold World.perform at ensured
          generalize (ensureChain parents).run World.answer w = ended at ensured ⊢
          obtain ⟨outcome, after⟩ := ended
          cases outcome with
          | error e => exact .blocked named missing up ensured
          | ok _ => exact .next named missing up ensured (makes_of_perform p after)

end Course

section Additions

variable {fs fs' fs'' : FileSystem} {p q parent : Path} {outcome : Except StreamError Unit}

/-- Nothing is lost and nothing is different, and whatever is new is a directory that this path or
one above it leads to. -/
structure OnlyAdds (fs fs' : FileSystem) (p : Path) : Prop where
  grows : fs.Grows fs'
  kept : ∀ id node, fs.node? id = some node → fs.isDirectoryNode id = false →
    fs'.node? id = some node
  entries : ∀ id, fs.entries id ⊆ fs'.entries id
  added : ∀ id, ∀ entry ∈ fs'.entries id, entry ∉ fs.entries id →
    fs.node? entry.2 = none ∧ fs'.isDirectoryNode entry.2 ∧
      ∃ q, Relation.ReflTransGen Up p q ∧ q.components <+: p.components ∧
        fs'.resolve q = .ok entry.2

theorem onlyAdds_iff : fs.OnlyAdds fs' p ↔ Gains
    (fun q => Relation.ReflTransGen Up p q ∧ q.components <+: p.components) fs fs' := by
  constructor
  · rintro ⟨grows, kept, entries, added⟩
    refine ⟨grows, kept, entries, fun id entry mem new => ?_⟩
    obtain ⟨missing, directory, q, way, front, leads⟩ := added id entry mem new
    exact ⟨missing, directory, q, ⟨way, front⟩, leads⟩
  · rintro ⟨grows, kept, entries, added⟩
    refine ⟨grows, kept, entries, fun id entry mem new => ?_⟩
    obtain ⟨missing, directory, q, ⟨way, front⟩, leads⟩ := added id entry mem new
    exact ⟨missing, directory, q, way, front, leads⟩

theorem onlyAdds_refl (fs : FileSystem) (p : Path) : fs.OnlyAdds fs p :=
  onlyAdds_iff.mpr (gains_refl _ fs)

theorem OnlyAdds.trans (first : fs.OnlyAdds fs' p) (second : fs'.OnlyAdds fs'' p) :
    fs.OnlyAdds fs'' p :=
  onlyAdds_iff.mpr ((onlyAdds_iff.mp first).trans (onlyAdds_iff.mp second))

theorem OnlyAdds.up (adds : fs.OnlyAdds fs' parent) (up : p.Up parent) : fs.OnlyAdds fs' p :=
  onlyAdds_iff.mpr ((onlyAdds_iff.mp adds).mono fun _ site =>
    ⟨site.1.head up, components_of_above (site.1.head up)⟩)

theorem onlyAdds_makeDirectory (h : fs.makeDirectory p = .ok fs') : fs.OnlyAdds fs' p :=
  onlyAdds_iff.mpr (gains_makeDirectory ⟨.refl, List.prefix_rfl⟩ h)

theorem Makes.onlyAdds (makes : fs.Makes p outcome fs') : fs.OnlyAdds fs' p := by
  cases makes with
  | made made => exact onlyAdds_makeDirectory made
  | found => exact onlyAdds_refl fs p
  | failed => exact onlyAdds_refl fs p

theorem Ensures.onlyAdds (ensures : fs.Ensures p outcome fs') : fs.OnlyAdds fs' p := by
  induction ensures with
  | standing => exact onlyAdds_refl fs _
  | first _ _ _ makes => exact makes.onlyAdds
  | blocked _ _ up _ ih => exact ih.up up
  | next _ _ up _ makes ih => exact (ih.up up).trans makes.onlyAdds

end Additions

section Outcomes

variable {fs fs' : FileSystem} {p q a more : Path} {outcome : Except StreamError Unit}
  {e : StreamError} {id : NodeId}

theorem isDirectory_of_above (higher : Relation.TransGen Up p a) (named : a.isEmpty = false)
    (there : fs.pathExists p = true) : fs.isDirectory a = true := by
  obtain ⟨id, found⟩ := pathExists_iff.mp there
  obtain ⟨written, names⟩ := spelled_of_above higher
  exact isDirectory_above written named names found

theorem Makes.isDirectory_of_ok (makes : fs.Makes p (.ok ()) fs') : fs'.isDirectory p = true := by
  cases makes with
  | made made =>
    exact isDirectory_iff.mpr ⟨_, resolve_of_makeDirectory made, (leadsTo_of_makeDirectory made).2⟩
  | found _ there => exact there

theorem Makes.failure (makes : fs.Makes p (.error e) fs') :
    fs' = fs ∧ e.endpoint = .file p ∧ fs.isDirectory p = false := by
  cases makes with
  | failed refused other =>
    refine ⟨rfl, rfl, Bool.eq_false_iff.mpr fun there => ?_⟩
    obtain ⟨id, found, _⟩ := isDirectory_iff.mp there
    cases refused.symm.trans (makeDirectory_of_resolve found)
    cases there.symm.trans (other rfl)

theorem Ensures.exists (ensures : fs.Ensures p (.ok ()) fs') :
    p.isEmpty = true ∨ fs'.pathExists p = true := by
  cases ensures with
  | standing there => exact there
  | first _ _ _ makes => exact .inr (pathExists_of_isDirectory makes.isDirectory_of_ok)
  | next _ _ _ _ makes => exact .inr (pathExists_of_isDirectory makes.isDirectory_of_ok)

theorem Ensures.above (ensures : fs.Ensures p outcome fs') (ok : outcome = .ok ())
    (way : Relation.ReflTransGen Up p a) (named : a.isEmpty = false) :
    fs.pathExists a = true ∨ fs'.isDirectory a = true := by
  induction ensures with
  | standing there =>
    have there := there.resolve_left (by simp [named_of_above way named])
    rcases Relation.reflTransGen_iff_eq_or_transGen.mp way with rfl | higher
    · exact .inl there
    · exact .inl (pathExists_of_isDirectory (isDirectory_of_above higher named there))
  | first _ _ top makes =>
    subst ok
    rcases Relation.ReflTransGen.cases_head way with rfl | ⟨_, up, _⟩
    · exact .inr makes.isDirectory_of_ok
    · cases top.symm.trans up
  | blocked => cases ok
  | next _ _ up _ makes ih =>
    subst ok
    rcases Relation.ReflTransGen.cases_head way with rfl | ⟨_, up', way⟩
    · exact .inr makes.isDirectory_of_ok
    · cases up.symm.trans up'
      exact (ih rfl way).imp_right makes.onlyAdds.grows.isDirectory

theorem Ensures.stopped (ensures : fs.Ensures p outcome fs') (failed : outcome = .error e) :
    ∃ q, Relation.ReflTransGen Up p q ∧ q.isEmpty = false ∧ e.endpoint = .file q ∧
      fs'.isDirectory q = false ∧ ∀ a, Relation.TransGen Up q a → a.isEmpty = false →
        fs.pathExists a = true ∨ fs'.isDirectory a = true := by
  induction ensures with
  | standing => cases failed
  | @first p outcome fs' named missing top makes =>
    subst failed
    obtain ⟨rfl, blamed, none⟩ := makes.failure
    refine ⟨p, .refl, named, blamed, none, fun a above _ => ?_⟩
    obtain ⟨_, up, _⟩ := Relation.TransGen.head'_iff.mp above
    cases top.symm.trans up
  | blocked _ _ up _ ih =>
    obtain ⟨q, way, rest⟩ := ih failed
    exact ⟨q, way.head up, rest⟩
  | @next p parent outcome middle fs' named missing up above makes =>
    subst failed
    obtain ⟨rfl, blamed, none⟩ := makes.failure
    refine ⟨p, .refl, named, blamed, none, fun a higher wanted => ?_⟩
    obtain ⟨_, up', way⟩ := Relation.TransGen.head'_iff.mp higher
    cases up.symm.trans up'
    exact above.above rfl way wanted

/-- A path that is there, and a directory if it was missing before. -/
def Provides (fs fs' : FileSystem) (p : Path) : Prop :=
  fs'.pathExists p = true ∧ (fs.pathExists p = false → fs'.isDirectory p = true)

inductive AtOrBelow (q : Path) : Path → Prop where
  | itself : AtOrBelow q q
  | below {more : Path} (relative : more.isAbsolute = false) : AtOrBelow q (q.append more)

/-- Where making sure of a directory fails. All that is above the path that is blamed is there, and
nothing is made at it or below it. The empty path, which is above each relative one, names nothing
that could be missing. -/
structure StopsAt (fs fs' : FileSystem) (p q : Path) (e : StreamError) : Prop where
  way : Relation.ReflTransGen Up p q
  blamed : e.endpoint = .file q
  above : ∀ a, Relation.TransGen Up q a → a.isEmpty = false → fs.Provides fs' a
  notDirectory : fs'.isDirectory q = false
  nothing : ∀ r, AtOrBelow q r → ∀ id, ∀ entry ∈ fs'.entries id, entry ∉ fs.entries id →
    fs'.resolve r ≠ .ok entry.2

end Outcomes

end FileSystem

namespace World
open FileSystem

theorem perform_ensureDirectory_of_exists {p : Path} {w : World}
    (there : p.isEmpty = true ∨ w.files.pathExists p = true) :
    w.perform (ensureDirectory p) = (.ok (), w) := by
  unfold ensureDirectory
  rw [Path.chain_eq, ensureChain]
  split
  · rfl
  · rename_i named
    rw [perform, Procedure.run_bind, run_pathExists, there.resolve_left named]
    rfl

end World

end ModuleTree
