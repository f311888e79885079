import ModuleTree.Proofs.Walk.Found
import ModuleTree.Walk.Discovery
/- The jobs that are discovered. Each is for a file that was found and writes below the
   destination, and no two of them have one output. -/
namespace ModuleTree

namespace Discovery
open ModuleTree.Path

theorem place_fresh {taken : Taken} {job : Job} {output : List Component}
    (h : place taken job = .fresh output) :
    output = job.output.components ∧ ∀ e ∈ taken, output ≠ e.1 := by
  unfold place at h
  dsimp only at h
  split at h
  · rename_i none
    cases h
    refine ⟨rfl, fun e mem same => ?_⟩
    have unlike := List.find?_eq_none.mp none e mem
    simp [same] at unlike
  · split at h <;> cases h

structure Neat (good : Job → Prop) (taken : Taken) : Prop where
  keyed : ∀ e ∈ taken, e.1 = e.2.output.components
  good : ∀ e ∈ taken, good e.2
  apart : taken.Pairwise fun a b => a.1 ≠ b.1

theorem collect_ok {destination : Path} {settings : Settings} {failure : Option WalkError}
    {good : Job → Prop} {visits : List Visit} {taken : Taken} {log : List Notice}
    {jobs : List Job} (neat : Neat good taken)
    (found : ∀ found ∈ visits.filterMap Tour.Visit.found?,
      good (.ofFound destination settings found))
    (h : (collect destination settings failure taken log visits).1 = .ok jobs) :
    (∀ job ∈ jobs, good job) ∧
      jobs.Pairwise fun a b => a.output.components ≠ b.output.components := by
  induction visits generalizing taken log with
  | nil =>
    unfold collect at h
    split at h
    · cases h
    · cases h
      constructor
      · intro job mem
        obtain ⟨e, there, same⟩ := List.mem_map.mp mem
        exact same ▸ neat.good e (List.mem_reverse.mp there)
      · rw [List.pairwise_map, List.pairwise_reverse]
        refine neat.apart.imp_of_mem fun {a b} ma mb differ same => ?_
        rw [neat.keyed a ma, neat.keyed b mb] at differ
        exact differ same.symm
  | cons visit rest ih =>
    have later : ∀ found ∈ rest.filterMap Tour.Visit.found?,
        good (.ofFound destination settings found) := by
      intro f mem
      refine found f ?_
      rw [List.filterMap_cons]
      split
      · exact mem
      · exact List.mem_cons_of_mem _ mem
    cases visit with
    | root path => exact ih neat later h
    | hidden path => exact ih neat later h
    | irregular path => exact ih neat later h
    | file seen =>
      unfold collect at h
      dsimp only at h
      split at h
      · rename_i output placed
        obtain ⟨keyed, unlike⟩ := place_fresh placed
        refine ih ⟨?_, ?_, List.pairwise_cons.mpr ⟨unlike, neat.apart⟩⟩ later h
        · intro e mem
          rcases List.mem_cons.mp mem with new | old
          · subst new
            exact keyed
          · exact neat.keyed e old
        · intro e mem
          rcases List.mem_cons.mp mem with new | old
          · subst new
            exact found seen (by simp [Tour.Visit.found?])
          · exact neat.good e old
      · exact ih neat later h
      · cases h

end Discovery

/-- What a run relies on when it takes on a job: its output is below the destination by proper
names, and its input is a file. -/
structure Job.Sited (fs : FileSystem) (destination : Path) (job : Job) : Prop where
  output : ∃ names, names ≠ [] ∧ (∀ name ∈ names, Path.IsName name) ∧
    job.output = destination.append ⟨Path.join names⟩
  input : ∃ id content, fs.node? id = some (.file content) ∧
    (job.input.Usable → fs.resolve job.input = .ok id)

theorem Job.sited_ofFound {fs : FileSystem} {found : Found} (genuine : found.Genuine fs)
    (destination : Path) (settings : Settings) :
    (Job.ofFound destination settings found).Sited fs destination := by
  obtain ⟨names, further, valid, relative⟩ := genuine.relative
  exact ⟨⟨names, further, valid, by rw [Job.ofFound, relative]⟩, genuine.file⟩

theorem Job.Sited.isAbsolute {fs : FileSystem} {destination : Path} {job : Job}
    (sited : job.Sited fs destination) : job.output.isAbsolute = destination.isAbsolute := by
  obtain ⟨names, _, valid, whole⟩ := sited.output
  rw [whole, Path.isAbsolute_append (Path.isAbsolute_join valid)]

/-- Each discovered job writes below the destination, and none of them where another does. -/
theorem Discovery.jobs_ok {fs : FileSystem} {roots : List Path} {destination : Path}
    {settings : Settings} {jobs : List Job} (sound : fs.Sound)
    (h : Discovery.jobs fs roots destination settings = .ok jobs) :
    (∀ job ∈ jobs, job.Sited fs destination) ∧
      jobs.Pairwise fun a b => a.output.segmentNames ≠ b.output.segmentNames := by
  have empty : Neat (Job.Sited fs destination) [] := ⟨by simp, by simp, .nil⟩
  obtain ⟨sited, apart⟩ := collect_ok empty (fun found mem => Job.sited_ofFound
    (Tour.ofRoots_genuine sound roots found mem) destination settings) h
  refine ⟨sited, apart.imp_of_mem fun {a b} ma mb differ same => differ ?_⟩
  rw [Path.components_eq, Path.components_eq, same, (sited a ma).isAbsolute,
    (sited b mb).isAbsolute]

end ModuleTree
