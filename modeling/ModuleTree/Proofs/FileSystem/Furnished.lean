import ModuleTree.Proofs.FileSystem.Vacant
/- Directories made one after another, by whomever. What is gained lies at the places where they
   were made, and a path that is free and goes down only is free still. -/
namespace ModuleTree.FileSystem
open ModuleTree.Path (dot Up)

def Furnished (sites : Path → Prop) : FileSystem → FileSystem → Prop :=
  Relation.ReflTransGen fun fs fs' => ∃ q, sites q ∧ fs.makeDirectory q = .ok fs'

instance (sites : Path → Prop) : IsPreorder FileSystem (Furnished sites) where
  refl _ := .refl
  trans _ _ _ := .trans

/-- A path that stays free, whichever of these places become directories. -/
def StaysFree (sites : Path → Prop) (fs : FileSystem) (p : Path) : Prop :=
  ∀ fs', Furnished sites fs fs' → fs'.Free p

/-- All that is new are directories at these places. Nothing is lost and nothing is different. -/
structure Gains (sites : Path → Prop) (fs fs' : FileSystem) : Prop where
  grows : fs.Grows fs'
  kept : ∀ id node, fs.node? id = some node → fs.isDirectoryNode id = false →
    fs'.node? id = some node
  entries : ∀ id, fs.entries id ⊆ fs'.entries id
  added : ∀ id, ∀ entry ∈ fs'.entries id, entry ∉ fs.entries id →
    fs.node? entry.2 = none ∧ fs'.isDirectoryNode entry.2 ∧
      ∃ q, sites q ∧ fs'.resolve q = .ok entry.2

variable {fs fs' fs'' : FileSystem} {p q a : Path} {sites sites' : Path → Prop}

section Gains

theorem gains_refl (sites : Path → Prop) (fs : FileSystem) : Gains sites fs fs where
  grows := grows_refl fs
  kept _ _ there _ := there
  entries _ := List.Subset.refl _
  added _ _ mem new := absurd mem new

theorem Gains.missing_before {id : NodeId} (gains : Gains sites fs fs')
    (missing : fs'.node? id = none) : fs.node? id = none := by
  by_contra there
  obtain ⟨node, here⟩ := Option.ne_none_iff_exists'.mp there
  cases directory : fs.isDirectoryNode id with
  | false => cases missing.symm.trans (gains.kept id node here directory)
  | true =>
    have stays := gains.grows.isDirectoryNode directory
    simp [isDirectoryNode, missing] at stays

theorem Gains.trans (first : Gains sites fs fs') (second : Gains sites fs' fs'') :
    Gains sites fs fs'' where
  grows := first.grows.trans second.grows
  kept id node there plain := by
    have after := first.kept id node there plain
    refine second.kept id node after ?_
    rwa [isDirectoryNode, after, ← there]
  entries id := List.Subset.trans (first.entries id) (second.entries id)
  added id entry mem new := by
    by_cases before : entry ∈ fs'.entries id
    · obtain ⟨missing, directory, q, site, leads⟩ := first.added id entry before new
      exact ⟨missing, second.grows.isDirectoryNode directory, q, site, second.grows.resolve leads⟩
    · obtain ⟨missing, found⟩ := second.added id entry mem before
      exact ⟨first.missing_before missing, found⟩

theorem Gains.mono (gains : Gains sites fs fs') (more : ∀ q, sites q → sites' q) :
    Gains sites' fs fs' where
  grows := gains.grows
  kept := gains.kept
  entries := gains.entries
  added id entry mem new := by
    obtain ⟨missing, directory, q, site, leads⟩ := gains.added id entry mem new
    exact ⟨missing, directory, q, more q site, leads⟩

theorem gains_makeDirectory (site : sites p) (made : fs.makeDirectory p = .ok fs') :
    Gains sites fs fs' := by
  have resolved := resolve_of_makeDirectory made
  have isDirectory := (leadsTo_of_makeDirectory made).2
  have changes := makeDirectory_changes made
  obtain ⟨directory, name, slashed, gap, rfl⟩ := makeDirectory_ok made
  obtain ⟨_, _, _, _, _, above, entries, open_, _⟩ := gap_of_follow gap
  refine ⟨changes.grows, ?_, changes.entries_subset, ?_⟩
  · intro id node there plain
    have other : id ≠ directory := by
      rintro rfl
      simp [isDirectoryNode, open_.node] at plain
    rw [node?_addNode open_.node, if_neg other, if_neg (Nat.ne_of_lt (lt_size_of_node? there)),
      there]
  · intro id entry mem new
    rcases entries_addNode open_.node .directory mem with ⟨_, same⟩ | before
    · rw [same]
      exact ⟨by simp [node?], isDirectory, p, site, resolved⟩
    · exact absurd before new

end Gains

section Furnished

theorem Furnished.gains (furnished : Furnished sites fs fs') : Gains sites fs fs' := by
  induction furnished with
  | refl => exact gains_refl sites fs
  | tail _ step ih =>
    obtain ⟨q, site, made⟩ := step
    exact ih.trans (gains_makeDirectory site made)

theorem Furnished.locksThere (furnished : Furnished sites fs fs') (locks : fs.LocksThere) :
    fs'.LocksThere := by
  induction furnished with
  | refl => exact locks
  | tail _ step ih =>
    obtain ⟨q, _, made⟩ := step
    exact (makeDirectory_changes made).locksThere ih

theorem vacant_of_furnished (locks : fs.LocksThere) (furnished : Furnished sites fs fs')
    (here : fs.isDirectory p = true ∨ fs.Vacant p) : fs'.isDirectory p = true ∨ fs'.Vacant p := by
  induction furnished with
  | refl => exact here
  | tail before step ih =>
    obtain ⟨q, _, made⟩ := step
    rcases ih with there | vacant
    · exact .inl ((makeDirectory_changes made).grows.isDirectory there)
    · exact vacant.makeDirectory (Furnished.locksThere before locks) made

theorem staysFree_of_downward (locks : fs.LocksThere) (free : fs.Free p)
    (downward : fs.Downward p) (sites : Path → Prop) : StaysFree sites fs p := by
  intro fs' furnished q way
  cases named : q.isEmpty with
  | true => exact .inr (lacks_of_isEmpty named)
  | false =>
    have here : fs.isDirectory q = true ∨ fs.Vacant q :=
      (free q way).imp_right (vacant_of_lacks free downward way named)
    exact (vacant_of_furnished locks furnished here).imp_right Vacant.lacks

/-- In each of these file systems the paths are free, and to make one of them a directory leads to
none but these. -/
def keepFree (reached : List FileSystem) (paths : List Path) : Bool :=
  reached.all fun fs => paths.all fun q =>
    decide (fs.isDirectory q = true ∨ fs.Lacks q) &&
      match fs.makeDirectory q with
      | .ok fs' => reached.contains fs'
      | .error _ => true

theorem staysFree_of_keepFree {reached : List FileSystem} {paths : List Path}
    (chain : p.chain = paths) (here : fs ∈ reached) (keep : keepFree reached paths = true) :
    StaysFree (Relation.ReflTransGen Up p) fs p := by
  have each (fs : FileSystem) (mem : fs ∈ reached) (q : Path)
      (way : Relation.ReflTransGen Up p q) := Bool.and_eq_true_iff.mp
    (List.all_eq_true.mp (List.all_eq_true.mp keep fs mem) q (chain ▸ Path.mem_chain_iff.mpr way))
  intro fs' furnished
  have mem : fs' ∈ reached := by
    induction furnished with
    | refl => exact here
    | tail _ step ih =>
      obtain ⟨q, way, made⟩ := step
      simpa [made] using (each _ ih q way).2
  exact fun q way => by simpa using (each fs' mem q way).1

theorem StaysFree.later (stays : StaysFree sites fs p) (furnished : Furnished sites fs fs') :
    StaysFree sites fs' p :=
  fun fs'' more => stays fs'' (furnished.trans more)

theorem StaysFree.above (stays : StaysFree sites fs p) (up : p.Up a) : StaysFree sites fs a :=
  fun fs' furnished q way => stays fs' furnished q (.head up way)

end Furnished

section New

variable {budget left : Nat} {directory top id : NodeId} {name : Bytes}

end New

end ModuleTree.FileSystem
