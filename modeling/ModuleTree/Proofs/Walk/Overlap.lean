import Mathlib
import ModuleTree.Proofs.FileSystem.Alike
import ModuleTree.Proofs.Walk.FirstOfEach
import ModuleTree.Proofs.Walk.Origin
/- Files that are found more than once. A file is compiled once for each path that it has below
   the bases of the roots; that is once, unless a root lies inside another. -/
namespace ModuleTree.Discovery
open FileSystem Tour

/-- No root is inside another that is a directory, nor is the directory around one that is a
file. -/
def NoneInside (fs : FileSystem) (roots : List Path) : Prop :=
  ∀ root ∈ roots, ∀ root' ∈ roots, fs.isDirectory root →
    (fs.baseOf root).components <+: (fs.baseOf root').components →
      (fs.baseOf root).components = (fs.baseOf root').components

def inputs (items : List Walk.Item) : List (List Path.Component) :=
  items.filterMap fun item => item.toOption.map (·.path.components)

variable {fs : FileSystem} {roots : List Path} {root root' destination : Path}
  {settings : Settings} {items : List Walk.Item} {jobs : List Job} {job : Job}
  {found found' : Found}

theorem mem_inputs {input : List Path.Component} :
    input ∈ inputs items ↔ ∃ found, .ok found ∈ items ∧ found.path.components = input := by
  unfold inputs
  rw [List.mem_filterMap]
  constructor
  · rintro ⟨item, mem, named⟩
    cases item with
    | error => cases named
    | ok found => exact ⟨found, mem, Option.some.inj named⟩
  · rintro ⟨found, mem, rfl⟩
    exact ⟨_, mem, rfl⟩

theorem base_of_noneInside (sound : fs.Sound) (noneInside : NoneInside fs roots)
    (held : root ∈ roots) (held' : root' ∈ roots) (arises : Arises fs root found)
    (arises' : Arises fs root' found') (same : found.path.components = found'.path.components)
    (inside : (fs.baseOf root).components <+: (fs.baseOf root').components) :
    (fs.baseOf root).components = (fs.baseOf root').components := by
  cases directory : fs.isDirectory root with
  | true => exact noneInside root held root' held' directory inside
  | false =>
    -- The one name on the base of a file leaves no room for another base.
    obtain ⟨names, _, single, _, path⟩ := arises.components sound
    obtain ⟨names', further, _, _, path'⟩ := arises'.components sound
    obtain ⟨more, whole⟩ := inside
    rw [path, path', ← whole, List.append_assoc, List.append_cancel_left_eq] at same
    have length := congrArg List.length same
    have positive := List.length_pos_of_ne_nil further
    simp only [List.length_map, List.length_append, single directory] at length
    have none : more = [] := List.length_eq_zero_iff.mp (by omega)
    rw [← whole, none, List.append_nil]

theorem relative_of_noneInside (sound : fs.Sound) (noneInside : NoneInside fs roots)
    (held : root ∈ roots) (held' : root' ∈ roots) (arises : Arises fs root found)
    (arises' : Arises fs root' found')
    (same : found.path.components = found'.path.components) : found.relative = found'.relative := by
  obtain ⟨names, _, _, relative, path⟩ := arises.components sound
  obtain ⟨names', _, _, relative', path'⟩ := arises'.components sound
  have whole : (fs.baseOf root).components ++ names.map .name =
      (fs.baseOf root').components ++ names'.map .name := by rw [← path, ← path', same]
  have base : (fs.baseOf root).components = (fs.baseOf root').components := by
    rcases List.append_eq_append_iff.mp whole with ⟨more, inside, _⟩ | ⟨more, inside, _⟩
    · exact base_of_noneInside sound noneInside held held' arises arises' same ⟨more, inside.symm⟩
    · exact (base_of_noneInside sound noneInside held' held arises' arises same.symm
        ⟨more, inside.symm⟩).symm
  rw [base, List.append_cancel_left_eq] at whole
  rw [relative, relative', Path.names_of_components whole]

section Jobs

variable (sound : fs.Sound) (ok : Discovery.jobs fs roots destination settings = .ok jobs)
include ok

theorem found_of_job (mem : job ∈ jobs) :
    ∃ found ∈ (ofRoots fs roots).files, job = Job.ofFound destination settings found := by
  obtain ⟨found, there, same⟩ := List.mem_map.mp ((kept_of_ok ok).2.sublist.subset mem)
  exact ⟨found, there, same.symm⟩

include sound

theorem job_of_found (mem : found ∈ (ofRoots fs roots).files) :
    ∃ job ∈ jobs, job.input.components = found.path.components ∧
      job.relative = found.relative := by
  obtain ⟨agree, first⟩ := kept_of_ok ok
  have there := List.mem_map_of_mem (f := Job.ofFound destination settings) mem
  obtain ⟨job, held, same⟩ := first.covers _ there
  have input := agree job (first.sublist.subset held) _ there same
  obtain ⟨found', mem', rfl⟩ := found_of_job ok held
  have genuine := ofRoots_genuine sound roots
  exact ⟨_, held, input, (sameOutput_iff (genuine found' mem') (genuine found mem)).mp same⟩

theorem pairwise_jobs {Apart : Job → Job → Prop}
    (apart : ∀ found ∈ (ofRoots fs roots).files, ∀ found' ∈ (ofRoots fs roots).files,
      found.relative ≠ found'.relative →
        Apart (.ofFound destination settings found) (.ofFound destination settings found')) :
    jobs.Pairwise Apart := by
  have genuine := ofRoots_genuine sound roots
  refine (kept_of_ok ok).2.apart.imp_of_mem fun ma mb differ => ?_
  obtain ⟨found, mem, rfl⟩ := found_of_job ok ma
  obtain ⟨found', mem', rfl⟩ := found_of_job ok mb
  refine apart found mem found' mem' fun same => differ ?_
  exact (sameOutput_iff (genuine found mem) (genuine found' mem')).mpr same

theorem relatives_apart : (jobs.map (·.relative)).Nodup :=
  List.pairwise_map.mpr (pairwise_jobs sound ok fun _ _ _ _ differ => differ)

theorem inputs_apart (noneInside : NoneInside fs roots) :
    (jobs.map (·.input.components)).Nodup := by
  refine List.pairwise_map.mpr (pairwise_jobs sound ok fun found mem found' mem' differ same => ?_)
  obtain ⟨root, held, arises⟩ := arises_of_mem_roots sound mem
  obtain ⟨root', held', arises'⟩ := arises_of_mem_roots sound mem'
  exact differ (relative_of_noneInside sound noneInside held held' arises arises' same)

theorem files_apart (noneInside : NoneInside fs roots) (straight : fs.Straight roots) :
    jobs.Pairwise fun a b => ¬ fs.SameFile a.input b.input := by
  refine pairwise_jobs sound ok fun found mem found' mem' differ same => ?_
  obtain ⟨root, held, arises⟩ := arises_of_mem_roots sound mem
  obtain ⟨root', held', arises'⟩ := arises_of_mem_roots sound mem'
  have path := components_of_straight sound straight held held' arises arises' same
  exact differ (relative_of_noneInside sound noneInside held held' arises arises' path)

end Jobs

/-- A file is compiled once for each path that it is found by relative to a base. If no base is
inside another, that is once for each path of a file; and where nothing is reached in two ways,
once for each file. -/
theorem compiled_once_for_each_relative_path (sound : fs.Sound)
    (gives : Walk.Gives fs (.ofRoots roots) items)
    (ok : Discovery.jobs fs roots destination settings = .ok jobs) :
    (jobs.map (·.relative)).Nodup ∧
    (∀ input relative,
      (∃ job ∈ jobs, job.input.components = input ∧ job.relative = relative) ↔
        ∃ found, .ok found ∈ items ∧ found.path.components = input ∧
          found.relative = relative) ∧
    (NoneInside fs roots → (jobs.map (·.input.components)).Nodup ∧
      jobs.length = (inputs items).dedup.length ∧
      (fs.Straight roots → jobs.Pairwise fun a b => ¬ fs.SameFile a.input b.input)) := by
  cases Walk.gives_unique gives (Walk.gives_items sound roots)
  have each (input : List Path.Component) (relative : Path) :
      (∃ job ∈ jobs, job.input.components = input ∧ job.relative = relative) ↔
        ∃ found, .ok found ∈ (ofRoots fs roots).items ∧ found.path.components = input ∧
          found.relative = relative := by
    constructor
    · rintro ⟨job, mem, rfl, rfl⟩
      obtain ⟨found, there, rfl⟩ := found_of_job ok mem
      exact ⟨found, ok_mem_items.mpr there, rfl, rfl⟩
    · rintro ⟨found, mem, rfl, rfl⟩
      exact job_of_found sound ok (ok_mem_items.mp mem)
  refine ⟨relatives_apart sound ok, each, fun noneInside => ?_⟩
  have distinct := inputs_apart sound ok noneInside
  have members (input : List Path.Component) :
      input ∈ jobs.map (·.input.components) ↔ input ∈ (inputs (ofRoots fs roots).items).dedup := by
    rw [List.mem_dedup, mem_inputs, List.mem_map]
    constructor
    · rintro ⟨job, mem, rfl⟩
      obtain ⟨found, there, path, _⟩ := (each _ _).mp ⟨job, mem, rfl, rfl⟩
      exact ⟨found, there, path⟩
    · rintro ⟨found, there, rfl⟩
      obtain ⟨job, mem, input, _⟩ := (each _ _).mpr ⟨found, there, rfl, rfl⟩
      exact ⟨job, mem, input⟩
  have perm := (List.perm_ext_iff_of_nodup distinct (List.nodup_dedup _)).mpr members
  refine ⟨distinct, ?_, files_apart sound ok noneInside⟩
  rw [← perm.length_eq, List.length_map]

set_option maxRecDepth 4000 in
theorem compiled_once_for_overlapping_file :
    twoOfOneName.Sound ∧
      Walk.Gives twoOfOneName (.ofRoots [.ofString "lib", .ofString "lib/a.js"])
        overlappingItems ∧
      Discovery.jobs twoOfOneName [.ofString "lib", .ofString "lib/a.js"] (.ofString "out") {} =
        .ok (libJobs "lib") ∧
      NoneInside twoOfOneName [.ofString "lib", .ofString "lib/a.js"] ∧
      twoOfOneName.Straight [.ofString "lib", .ofString "lib/a.js"] ∧
      (libJobs "lib").length = (inputs overlappingItems).dedup.length ∧
      (libJobs "lib").Pairwise fun a b => ¬ twoOfOneName.SameFile a.input b.input := by
  have items : (Tour.ofRoots twoOfOneName [.ofString "lib", .ofString "lib/a.js"]).items =
      overlappingItems := by cbv
  have sound := twoOfOneName_sound
  have gives := items ▸ Walk.gives_items sound [.ofString "lib", .ofString "lib/a.js"]
  have jobs : Discovery.jobs twoOfOneName [.ofString "lib", .ofString "lib/a.js"]
      (.ofString "out") {} = .ok (libJobs "lib") := by cbv
  have base : twoOfOneName.baseOf (.ofString "lib") = .ofString "lib" := by cbv
  have base' : twoOfOneName.baseOf (.ofString "lib/a.js") = .ofString "lib" := by cbv
  have noneInside : NoneInside twoOfOneName [.ofString "lib", .ofString "lib/a.js"] := by
    simp [NoneInside, base, base']
  have straight : twoOfOneName.Straight [.ofString "lib", .ofString "lib/a.js"] :=
    ⟨linkless_of_numbered (by decide +kernel), noHardLinks_of_nodup (by decide +kernel),
      by unfold Path.Plain; decide +kernel, by decide +kernel⟩
  obtain ⟨_, counted, files⟩ :=
    (compiled_once_for_each_relative_path sound gives jobs).2.2 noneInside
  exact ⟨sound, gives, jobs, noneInside, straight, counted, files straight⟩

def nested : FileSystem where
  nodes := #[.directory 0 [(Text.encode "r", 1)], .directory 0 [(Text.encode "s", 2)],
    .directory 1 [(Text.encode "a.js", 3)], .file "a".toUTF8]
  root := 0
  home := 0

def nestedJobs : List Job :=
  [⟨.ofString "r/s/a.js", .ofString "s/a.js", .ofString "out/s/a.js", none, "s/a"⟩,
    ⟨.ofString "r/s/a.js", .ofString "a.js", .ofString "out/a.js", none, "a"⟩]

set_option maxRecDepth 4000 in
/-- With both directories for roots, the one file there is has two jobs and two outputs. -/
theorem inner_file_compiled_twice :
    nested.Sound ∧
      Discovery.jobs nested [.ofString "r", .ofString "r/s"] (.ofString "out") {} =
        .ok nestedJobs ∧
      ¬ nestedJobs.Pairwise (fun a b => ¬ nested.SameFile a.input b.input) ∧
      nestedJobs.length ≠
        (inputs (Tour.ofRoots nested [.ofString "r", .ofString "r/s"]).items).dedup.length := by
  have sound : nested.Sound :=
    sound_of_numbered (by decide) (by decide) (by decide +kernel)
  have jobs : Discovery.jobs nested [.ofString "r", .ofString "r/s"] (.ofString "out") {} =
      .ok nestedJobs := by cbv
  have there : nested.resolve (.ofString "r/s/a.js") = .ok 3 := by cbv
  have inputs_ : inputs (Tour.ofRoots nested [.ofString "r", .ofString "r/s"]).items =
      List.replicate 2 (Path.ofString "r/s/a.js").components := by cbv
  refine ⟨sound, jobs, ?_, ?_⟩
  · intro apart
    exact List.rel_of_pairwise_cons apart List.mem_cons_self ⟨3, there, there⟩
  · rw [inputs_]
    decide +kernel

end ModuleTree.Discovery
