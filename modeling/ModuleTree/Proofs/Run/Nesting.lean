import Mathlib
import ModuleTree.Proofs.Run.Delivery
import ModuleTree.Proofs.Walk.Relative
/- Outputs that cannot be there together. Where one root has a file and another a directory by
   the same names, one output is a directory of the other's path. Discovery compares outputs as
   wholes and lets this pass, but no run of such jobs ends well. -/
namespace ModuleTree

variable {σ : Type}

/-- The output of the first job would have to be a directory for that of the second. -/
def Job.Encloses (a b : Job) : Prop :=
  a.output.components <+: b.output.components ∧ a.output.components ≠ b.output.components

namespace Tour
open FileSystem ModuleTree.Path

variable {fs : FileSystem} {root : Path} {found found' : Found} {names more : List Bytes}

theorem Called.none_below (sound : fs.Sound) (file : Called fs root found names)
    (below : Called fs root found' (names ++ more)) : more = [] := by
  generalize whole : names ++ more = all at below
  cases file with
  | itself there file =>
    cases below with
    | itself =>
      have length := congrArg List.length whole
      simp only [List.length_append, List.length_singleton] at length
      exact List.length_eq_zero_iff.mp (by omega)
    | below there' isDirectory =>
      cases there.symm.trans there'
      simp [isDirectoryNode, file] at isDirectory
  | below there isDirectory way file =>
    cases below with
    | itself there' file' =>
      cases there.symm.trans there'
      simp [isDirectoryNode, file'] at isDirectory
    | below there' _ way' =>
      cases there.symm.trans there'
      subst whole
      obtain ⟨middle, first, second⟩ := reaches_append.mp way'
      cases reaches_unique sound way first
      exact (reaches_from_plain (by simp [isDirectoryNode, file]) second).1

theorem Called.directory (file : Called fs root found (names ++ more)) (some : names ≠ [])
    (further : more ≠ []) : ∃ top id, fs.resolve root = .ok top ∧ fs.Reaches top names id ∧
      fs.isDirectoryNode id := by
  generalize whole : names ++ more = all at file
  cases file with
  | itself =>
    have length := congrArg List.length whole
    have front := List.length_pos_of_ne_nil some
    have rest := List.length_pos_of_ne_nil further
    simp only [List.length_append, List.length_singleton] at length
    omega
  | below there _ way =>
    subst whole
    obtain ⟨middle, first, second⟩ := reaches_append.mp way
    refine ⟨_, middle, there, first, ?_⟩
    cases second with
    | here => contradiction
    | step entry =>
      obtain ⟨parent, node⟩ := node_of_mem_entries entry
      simp [isDirectoryNode, node]

end Tour

namespace Setup
open Run FileSystem

variable {m : Setup σ} {jobs : List Job} {start : σ} {s : Run σ} {files : σ → FileSystem}
  {a b : Job}

theorem not_ok_of_enclosing (houses : m.environment.Houses files)
    (bounded : (files start).Bounded) (reach : m.Reachable jobs start s) (mem : a ∈ jobs)
    (mem' : b ∈ jobs) {more : List Bytes} (further : more ≠ [])
    (absolute : a.output.isAbsolute = b.output.isAbsolute)
    (below : b.output.segmentNames = a.output.segmentNames ++ more) (summary : Summary) :
    s.result? ≠ some (.ok summary) := by
  intro returned
  have shown := created_of_reachable houses bounded reach
  have created {job : Job} (mem : job ∈ jobs) : ∃ id,
      (files s.surroundings).resolve job.output = .ok id ∧
        (files s.surroundings).isDirectoryNode id = false := by
    rw [← (valid_of_reachable reach).jobs] at mem
    obtain ⟨t, there, rfl⟩ := List.mem_map.mp mem
    obtain ⟨_, _, _, _, _, _, _, _, file, made, _⟩ := delivered_of_ok reach returned there
    obtain ⟨resolved, _, plain⟩ := shown _ (List.mem_map_of_mem there) _ made
    exact ⟨file, resolved, plain⟩
  obtain ⟨id, there, plain⟩ := created mem
  obtain ⟨id', there', _⟩ := created mem'
  have leads := leadsTo_of_resolve there'
  rw [below] at leads
  obtain ⟨left, left', middle, first, second⟩ := leadsTo_append.mp leads
  obtain ⟨name, rest, whole⟩ := List.exists_cons_of_ne_nil further
  have same : middle = id := by
    rw [← start_eq _ absolute] at first
    exact leadsTo_unique ⟨left, first⟩ (leadsTo_of_resolve there)
  -- The way on from the output begins with a step into it.
  have opened {next : NodeId}
      (enters : (files s.surroundings).enter middle name = .ok (some next)) :
      (files s.surroundings).isDirectoryNode middle := by
    obtain ⟨parent, entries, open_, _⟩ := steps_of_enter enters
    simp [isDirectoryNode, open_.node]
  rw [← same] at plain
  rw [whole] at second
  rcases Relation.ReflTransGen.cases_head second with same | ⟨next, step, _⟩
  · cases same
  · cases step with
    | entry enters => cases plain.symm.trans (opened enters)
    | link enters => cases plain.symm.trans (opened enters)

end Setup

namespace Discovery
open Tour

variable {fs : FileSystem} {roots : List Path} {destination : Path} {settings : Settings}
  {jobs : List Job} {job a b : Job}

theorem situated_of_job (sound : fs.Sound)
    (discovered : Discovery.jobs fs roots destination settings = .ok jobs) (mem : job ∈ jobs) :
    ∃ found, found ∈ (ofRoots fs roots).files ∧ job = .ofFound destination settings found ∧
      ∃ root ∈ roots, Situated fs destination settings root found found.relative.names := by
  obtain ⟨found, there, same⟩ := found_of_job discovered mem
  obtain ⟨root, held, arises⟩ := arises_of_mem_roots sound there
  obtain ⟨names, situated⟩ := arises.situated sound destination settings
  exact ⟨found, there, same, root, held, situated.relative_names.symm ▸ situated⟩

theorem encloses_iff {names names' : List Bytes}
    (output : a.output.components = destination.components ++ names.map .name)
    (output' : b.output.components = destination.components ++ names'.map .name) :
    a.Encloses b ↔ ∃ more, more ≠ [] ∧ names' = names ++ more := by
  unfold Job.Encloses
  rw [output, output', List.prefix_append_right_inj, ne_eq, List.append_cancel_left_eq]
  constructor
  · rintro ⟨⟨rest, whole⟩, differ⟩
    obtain ⟨front, more, rfl, same, _⟩ := List.map_eq_append_iff.mp whole.symm
    cases Path.names_of_components same
    exact ⟨more, by rintro rfl; simp at differ, rfl⟩
  · rintro ⟨more, further, rfl⟩
    refine ⟨by simp, fun same => ?_⟩
    have none := Path.names_of_components same
    exact further (List.append_right_eq_self.mp none.symm)

/-- No two outputs are one. One is below another just when the file of that other has the names
of a directory of another root; two files of one root are never so. Where it happens, no run of
the jobs ends well, whatever has become of the files and whoever compiles. -/
theorem enclosed_only_across_roots (sound : fs.Sound)
    (discovered : Discovery.jobs fs roots destination settings = .ok jobs) :
    jobs.Pairwise (fun a b => ¬ a.SameOutput b) ∧
    ∀ a ∈ jobs, ∀ b ∈ jobs,
      (a.Encloses b ↔ ∃ more, more ≠ [] ∧ b.relative.names = a.relative.names ++ more) ∧
      (a.Encloses b →
        (∃ root ∈ roots, ∃ root' ∈ roots, ∃ top id,
          Called fs root ⟨a.input, a.relative⟩ a.relative.names ∧
          Called fs root' ⟨b.input, b.relative⟩ b.relative.names ∧
          fs.resolve root' = .ok top ∧ fs.Reaches top a.relative.names id ∧
          fs.isDirectoryNode id) ∧
        (∀ root ∈ roots, ⟨a.input, a.relative⟩ ∈ (ofRoot fs root).files →
          ⟨b.input, b.relative⟩ ∉ (ofRoot fs root).files) ∧
        ∀ {σ : Type} (m : Setup σ) (files : σ → FileSystem) (start : σ) (s : Run σ)
          (summary : Summary), m.environment.Houses files → (files start).Bounded →
            m.Reachable jobs start s → s.result? ≠ some (.ok summary)) := by
  refine ⟨(kept_of_ok discovered).2.apart, fun a mem b mem' => ?_⟩
  obtain ⟨found, _, job, root, held, here⟩ := situated_of_job sound discovered mem
  obtain ⟨found', _, job', root', held', here'⟩ := situated_of_job sound discovered mem'
  have output := here.output.trans (congrArg _ here.relative)
  have output' := here'.output.trans (congrArg _ here'.relative)
  have nested : a.Encloses b ↔
      ∃ more, more ≠ [] ∧ b.relative.names = a.relative.names ++ more := by
    rw [job, job']
    exact encloses_iff output output'
  refine ⟨nested, fun encloses => ?_⟩
  obtain ⟨more, further, whole⟩ := nested.mp encloses
  have called : Called fs root ⟨a.input, a.relative⟩ a.relative.names := job ▸ here.called
  have called' : Called fs root' ⟨b.input, b.relative⟩ (a.relative.names ++ more) :=
    whole ▸ job' ▸ here'.called
  have some : a.relative.names ≠ [] := job ▸ here.further
  obtain ⟨top, id, there, way, isDirectory⟩ := called'.directory some further
  refine ⟨⟨root, held, root', held', top, id, called, whole ▸ called', there, way, isDirectory⟩,
    fun one _ first second => ?_, fun m files start s summary houses bounded reach => ?_⟩
  · obtain ⟨names, alone⟩ := (arises_of_mem sound first).situated sound destination settings
    obtain ⟨names', alone'⟩ := (arises_of_mem sound second).situated sound destination settings
    have same : names = a.relative.names := alone.relative_names.symm
    have same' : names' = a.relative.names ++ more := alone'.relative_names.symm.trans whole
    subst same same'
    exact further (alone.called.none_below sound alone'.called)
  · obtain ⟨absolute, below⟩ := here.place
    obtain ⟨absolute', below'⟩ := here'.place
    refine Setup.not_ok_of_enclosing houses bounded reach mem mem' further ?_ ?_ summary
    · rw [job, job', absolute, absolute']
    · rw [job, job'] at whole ⊢
      rw [below, below', List.append_assoc]
      exact congrArg _ whole

def fileAndDirectory : FileSystem where
  nodes := #[.directory 0 [(Text.encode "a", 1), (Text.encode "b", 3)],
    .directory 0 [(Text.encode "x", 2)], .file "file".toUTF8,
    .directory 0 [(Text.encode "x", 4)], .directory 3 [(Text.encode "y.js", 5)],
    .file "module".toUTF8]
  root := 0
  home := 0

def fileAndDirectoryJobs : List Job :=
  [.below "a" "x" "x" "out", .below "b" "x/y.js" "x/y" "out"]

theorem fileAndDirectory_sound : fileAndDirectory.Sound :=
  FileSystem.sound_of_numbered (by decide) (by decide) (by decide +kernel)

theorem fileAndDirectory_jobs : Discovery.jobs fileAndDirectory [.ofString "a", .ofString "b"]
    (.ofString "out") {} = .ok fileAndDirectoryJobs := by
  cbv

theorem fileAndDirectory_encloses :
    (Job.below "a" "x" "x" "out").Encloses (.below "b" "x/y.js" "x/y" "out") := by
  unfold Job.Encloses
  decide +kernel

theorem no_run_of_file_and_directory :
    fileAndDirectory.Sound ∧
      Discovery.jobs fileAndDirectory [.ofString "a", .ofString "b"] (.ofString "out") {} =
        .ok fileAndDirectoryJobs ∧
      (Job.below "a" "x" "x" "out").Encloses (.below "b" "x/y.js" "x/y" "out") ∧
      ∀ s summary, (Setup.leaving {} "out" 1).Reachable fileAndDirectoryJobs fileAndDirectory s →
        s.result? ≠ some (.ok summary) := by
  refine ⟨fileAndDirectory_sound, fileAndDirectory_jobs, fileAndDirectory_encloses,
    fun s summary => ?_⟩
  have all := (enclosed_only_across_roots fileAndDirectory_sound fileAndDirectory_jobs).2
  exact ((all _ (List.mem_cons_self) _ (List.mem_cons_of_mem _ List.mem_cons_self)).2
    fileAndDirectory_encloses).2.2 (Setup.leaving {} "out" 1) id fileAndDirectory s summary
      Environment.leaving_houses fileAndDirectory_sound.bounded

def fileAndDirectoryAfter : FileSystem where
  nodes := #[.directory 0 [(Text.encode "a", 1), (Text.encode "b", 3), (Text.encode "out", 6)],
    .directory 0 [(Text.encode "x", 2)], .file "file".toUTF8,
    .directory 0 [(Text.encode "x", 4)], .directory 3 [(Text.encode "y.js", 5)],
    .file "module".toUTF8, .directory 0 [(Text.encode "x", 7)], .file "file".toUTF8]
  root := 0
  home := 0

set_option maxRecDepth 4000 in
/-- Discovery takes on both files; it is the run that fails, with one of them compiled. -/
theorem file_and_directory_discovered :
    fileAndDirectory.Sound ∧
      Discovery.jobs fileAndDirectory [.ofString "a", .ofString "b"] (.ofString "out") {} =
        .ok fileAndDirectoryJobs ∧
      (∃ a ∈ fileAndDirectoryJobs, ∃ b ∈ fileAndDirectoryJobs, a.Encloses b) ∧
      ∃ e, runSequentially .leaving {} (.ofString "out") fileAndDirectoryJobs fileAndDirectory =
        (.error e, fileAndDirectoryAfter) := by
  refine ⟨fileAndDirectory_sound, fileAndDirectory_jobs,
    ⟨_, List.mem_cons_self, _, List.mem_cons_of_mem _ List.mem_cons_self,
      fileAndDirectory_encloses⟩, ?_⟩
  exact ⟨_, by cbv⟩

end Discovery

end ModuleTree
