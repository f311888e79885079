import Mathlib
import ModuleTree.Proofs.Run.Delivery
/- The place of the graph. Discovery keeps the outputs of the jobs apart from each other, but
   not from the graph, so a file of that name directly below a root loses its module to it. -/
namespace ModuleTree

variable {σ : Type}

/-- The paths at which a run creates files. -/
def targets (settings : Settings) (destination : Path) (jobs : List Job) : List Path :=
  jobs.map Job.output ++ if settings.graph then [graphPath destination] else []

namespace Discovery

variable {destination : Path} {settings : Settings} {failure : Option WalkError}
  {visits : List Visit} {taken : Taken} {log : List Notice} {jobs : List Job}

theorem mem_of_place_again {job : Job} (h : place taken job = .again) :
    ∃ e ∈ taken, e.1 = job.output.components := by
  unfold place at h
  dsimp only at h
  split at h
  · cases h
  · rename_i output first there
    have same := List.find?_some there
    exact ⟨(output, first), List.mem_of_find?_eq_some there, by simpa using same⟩

theorem collect_covers (keyed : ∀ e ∈ taken, e.1 = e.2.output.components)
    (h : (collect destination settings failure taken log visits).1 = .ok jobs) :
    (∀ e ∈ taken, e.2 ∈ jobs) ∧ ∀ found ∈ visits.filterMap Tour.Visit.found?,
      ∃ job ∈ jobs, job.output.components =
        (Job.ofFound destination settings found).output.components := by
  induction visits generalizing taken log with
  | nil =>
    unfold collect at h
    split at h
    · cases h
    · cases h
      constructor
      · intro e mem
        exact List.mem_map_of_mem (List.mem_reverse.mpr mem)
      · intro found mem
        cases mem
  | cons visit rest ih =>
    cases visit with
    | root path => exact ih keyed h
    | hidden path => exact ih keyed h
    | irregular path => exact ih keyed h
    | file seen =>
      unfold collect at h
      dsimp only at h
      split at h
      · rename_i output placed
        have own := (place_fresh placed).1
        obtain ⟨kept, covered⟩ := ih (List.forall_mem_cons.mpr ⟨own, keyed⟩) h
        obtain ⟨first, later⟩ := List.forall_mem_cons.mp kept
        refine ⟨later, ?_⟩
        intro found mem
        rcases List.mem_cons.mp mem with here | there
        · exact ⟨_, first, by rw [here]⟩
        · exact covered found there
      · rename_i again
        obtain ⟨kept, covered⟩ := ih keyed h
        refine ⟨kept, ?_⟩
        intro found mem
        rcases List.mem_cons.mp mem with here | there
        · obtain ⟨e, before, same⟩ := mem_of_place_again again
          exact ⟨e.2, kept e before, by rw [here, ← same, keyed e before]⟩
        · exact covered found there
      · cases h

theorem output_iff {fs : FileSystem} {roots : List Path}
    (found : Discovery.jobs fs roots destination settings = .ok jobs)
    (output : List Path.Component) : (∃ job ∈ jobs, job.output.components = output) ↔
      ∃ f ∈ (Tour.ofRoots fs roots).files,
        (Job.ofFound destination settings f).output.components = output := by
  constructor
  · rintro ⟨job, mem, same⟩
    let ForFound (job : Job) : Prop :=
      ∃ f ∈ (Tour.ofRoots fs roots).files, Job.ofFound destination settings f = job
    have empty : Neat ForFound [] := ⟨by simp, by simp, .nil⟩
    obtain ⟨f, there, own⟩ := (collect_ok empty (fun f mem => ⟨f, mem, rfl⟩) found).1 job mem
    exact ⟨f, there, by rw [own, same]⟩
  · rintro ⟨f, there, same⟩
    obtain ⟨job, mem, covers⟩ := (collect_covers (by simp) found).2 f there
    exact ⟨job, mem, covers.trans same⟩

end Discovery

section Targets

variable {fs : FileSystem} {roots : List Path} {destination : Path} {settings : Settings}
  {jobs : List Job}

theorem ofFound_at_graphPath {found : Found} (genuine : found.Genuine fs) :
    (Job.ofFound destination settings found).output.components =
      (graphPath destination).components ↔ found.relative = ⟨Accumulator.fileName⟩ := by
  obtain ⟨names, _, valid, relative⟩ := genuine.relative
  have below := Path.segmentNames_join valid
  have output : (Job.ofFound destination settings found).output =
      destination.append ⟨Path.join names⟩ := by rw [Job.ofFound, relative]
  have graph := lies_graphPath destination
  have last : (graphPath destination).segmentNames =
      destination.segmentNames ++ [Accumulator.fileName] := Path.segmentNames_child isName_fileName
  constructor
  · intro same
    rw [output, Path.components_below (Path.isAbsolute_append (Path.isAbsolute_join valid)) valid
        (by rw [Path.segmentNames_append (Path.isAbsolute_join valid), below]),
      Path.components_below graph.absolute (by simpa using isName_fileName) last,
      List.append_cancel_left_eq] at same
    have one : names = [Accumulator.fileName] :=
      List.map_injective_iff.mpr (fun a b h => by cases h; rfl) same
    rw [relative, one]
    rfl
  · intro same
    rw [Job.ofFound, same]
    rfl

/-- No two files of a run are created at one path, unless a graph is wanted and there is a file
of its name directly below a root. -/
theorem targets_apart_iff (sound : fs.Sound)
    (found : Discovery.jobs fs roots destination settings = .ok jobs) :
    (targets settings destination jobs).Pairwise (fun p q => p.components ≠ q.components) ↔
      (settings.graph → ∀ f ∈ (Tour.ofRoots fs roots).files,
        f.relative ≠ ⟨Accumulator.fileName⟩) := by
  have apart : (jobs.map Job.output).Pairwise fun p q => p.components ≠ q.components := by
    rw [List.pairwise_map]
    have empty : Discovery.Neat (fun _ => True) [] := ⟨by simp, by simp, .nil⟩
    exact (Discovery.collect_ok empty (fun _ _ => trivial) found).2
  have elsewhere : (∀ job ∈ jobs, job.output.components ≠ (graphPath destination).components) ↔
      ∀ f ∈ (Tour.ofRoots fs roots).files, f.relative ≠ ⟨Accumulator.fileName⟩ := by
    have here := not_congr (Discovery.output_iff found (graphPath destination).components)
    push Not at here
    rw [here]
    refine forall₂_congr fun f mem => not_congr ?_
    exact ofFound_at_graphPath (Tour.ofRoots_genuine sound roots f mem)
  unfold targets
  cases settings.graph with
  | false => simpa using apart
  | true => simp [List.pairwise_append, apart, elsewhere]

set_option maxRecDepth 4000 in
theorem targets_of_two_modules_apart :
    (targets { graph := true } (.ofString "out")
      [.below "in" "a.js" "a" "out", .below "in" "b.js" "b" "out"]).Pairwise
        fun p q => p.components ≠ q.components := by
  have sound : twoModules.Sound :=
    FileSystem.sound_of_numbered (by decide) (by decide) (by decide +kernel)
  have found : Discovery.jobs twoModules [.ofString "in"] (.ofString "out") { graph := true } =
      .ok [.below "in" "a.js" "a" "out", .below "in" "b.js" "b" "out"] := by cbv
  have files : (Tour.ofRoots twoModules [.ofString "in"]).files =
      [⟨.ofString "in/a.js", .ofString "a.js"⟩, ⟨.ofString "in/b.js", .ofString "b.js"⟩] := by cbv
  rw [targets_apart_iff sound found, files]
  decide +kernel

end Targets

namespace Setup

def namedGraph : FileSystem where
  nodes := #[.directory 0 [(Text.encode "in", 1)],
    .directory 0 [(Text.encode "a.js", 2), (Text.encode "graph.json", 3)], .file "a".toUTF8,
    .file "mine".toUTF8]
  root := 0
  home := 0

def namedGraphJobs : List Job :=
  [.below "in" "a.js" "a" "out", .below "in" "graph.json" "graph" "out"]

def namedGraphAfter : FileSystem where
  nodes := #[.directory 0 [(Text.encode "in", 1), (Text.encode "out", 4)],
    .directory 0 [(Text.encode "a.js", 2), (Text.encode "graph.json", 3)], .file "a".toUTF8,
    .file "mine".toUTF8, .directory 0 [(Text.encode "a.js", 5), (Text.encode "graph.json", 6)],
    .file "a".toUTF8, .file (Accumulator.fileText (.ofList [("a", []), ("graph", [])])).toUTF8]
  root := 0
  home := 0

set_option maxRecDepth 4000 in
theorem namedGraph_run :
    runSequentially .leaving { graph := true } (.ofString "out") namedGraphJobs namedGraph =
      (.ok ⟨2, some (.ofString "out/graph.json")⟩, namedGraphAfter) := by
  cbv

/-- The run returns well, and the module of `graph.json` is nowhere: the graph has taken its
place. -/
theorem module_lost_to_graph :
    namedGraph.Sound ∧ namedGraph.NoHardLinks ∧
      Discovery.jobs namedGraph [.ofString "in"] (.ofString "out") { graph := true } =
        .ok namedGraphJobs ∧
      ∃ s, (leaving { graph := true } "out" 0).Reachable namedGraphJobs namedGraph s ∧
        s.result? = some (.ok ⟨2, some (.ofString "out/graph.json")⟩) ∧ ∃ t ∈ s.tasks,
          t.job.output = graphPath (.ofString "out") ∧
          (∃ id, s.surroundings.resolve t.job.input = .ok id ∧
            s.surroundings.node? id = some (.file "mine".toUTF8)) ∧
          ¬s.surroundings.Contains t.job.output "mine".toUTF8 := by
  obtain ⟨s, reach, well, after⟩ :=
    reachable_of_run (m := leaving { graph := true } "out" 0) namedGraph_run
  have second : .below "in" "graph.json" "graph" "out" ∈ s.tasks.map Task.job := by
    simp [(valid_of_reachable reach).jobs, namedGraphJobs]
  obtain ⟨t, mem, job⟩ := List.mem_map.mp second
  refine ⟨FileSystem.sound_of_numbered (by decide) (by decide) (by decide +kernel),
    FileSystem.noHardLinks_of_nodup (by decide +kernel), by cbv, s, reach, well, t, mem, ?_⟩
  rw [job, after]
  refine ⟨by decide +kernel, ⟨3, by cbv, rfl⟩, ?_⟩
  rintro ⟨id, leads, file⟩
  have graph : id = 6 := Except.ok.inj (leads.symm.trans (by cbv))
  subst graph
  revert file
  decide +kernel

end Setup

end ModuleTree
