import ModuleTree.Proofs.FileSystem.Level
/- Destinations with no links in them, neither symbolic nor hard ones. New names keep them so, for
   each new name is the only one of a new node. -/
namespace ModuleTree.FileSystem

/-- Below a node are no links, and nothing there has another name anywhere. -/
structure Unshared (fs : FileSystem) (top : NodeId) : Prop where
  linkFree : fs.LinkFree top
  once : fs.NamesOnce top

variable {fs fs' : FileSystem} {destination p q : Path} {top id : NodeId}

theorem Changes.namesOnce (h : fs.Changes fs') (bounded : fs.Bounded) (once : fs.NamesOnce top) :
    fs'.NamesOnce top := by
  cases h with
  | add gap blank =>
    obtain ⟨_, _, _, _, _, _, _, open_, _⟩ := gap_of_follow gap
    have here := open_.node
    intro names id down entry mem id' entry' mem' same
    rcases sharing_addNode bounded.inside here blank mem mem' same with one | ⟨old, old'⟩
    · exact one
    · rcases descends_addNode here blank down with above | new
      · exact once names id above entry old id' entry' old' same
      · exact absurd (id_lt_of_mem_entries old) (new ▸ Nat.lt_irrefl _)
  | write here content' =>
    have entries := entries_setFile here content'
    intro names id down entry mem id' entry' mem' same
    have above : fs.Descends top names id := down.mono fun other entry mem => entries other ▸ mem
    exact once names id above entry (entries id ▸ mem) id' entry' (entries id' ▸ mem') same

theorem Changes.unshared (h : fs.Changes fs') (bounded : fs.Bounded) (unshared : fs.Unshared top) :
    fs'.Unshared top :=
  ⟨h.linkFree unshared.linkFree, h.namesOnce bounded unshared.once⟩

theorem unshared_of_empty (empty : fs.entries top = []) : fs.Unshared top := by
  refine ⟨(holdsOnlyFiles_of_empty empty).linkFree, fun names id down entry mem => ?_⟩
  have none := names_of_empty empty (.concat down mem)
  simp at none

theorem Awaits.unshared_puts {sites : Path → Prop} (unshared : fs.Awaits destination Unshared)
    (bounded : fs.Bounded) (lies : ∀ site, sites site → destination.Lies site)
    (h : fs.Puts destination sites fs') : fs'.Awaits destination Unshared := by
  refine unshared.puts lies h (fun _ _ => id) fun id _ here => ?_
  rcases h.changes with same | changes
  · exact same ▸ here
  · exact changes.unshared bounded here

theorem Awaits.linkFree (unshared : fs.Awaits destination Unshared) :
    fs.Awaits destination LinkFree :=
  fun fs' paved id leads => (unshared fs' paved id leads).linkFree

theorem Awaits.segmentNames_unique (unshared : fs.Awaits destination Unshared) (sound : fs.Sound)
    (lies : destination.Lies p) (lies' : destination.Lies q) (first : fs.resolve p = .ok id)
    (second : fs.resolve q = .ok id) : p.segmentNames = q.segmentNames :=
  segmentNames_once (fun top there => (unshared fs .refl top there).once) sound.ranked
    (unshared.linkFree fs .refl) lies lies' (leadsTo_of_resolve first) (leadsTo_of_resolve second)

theorem unshared_of_level (bounded : fs.Bounded) (level : up ∉ destination.segmentNames)
    (unshared : ∀ id, fs.LeadsTo destination destination.segmentNames id → fs.Unshared id) :
    fs.Awaits destination Unshared :=
  awaits_of_level bounded level unshared fun _ _ => unshared_of_empty

end ModuleTree.FileSystem
