import Mathlib
import ModuleTree.Proofs.Walk.FirstOfEach
/- Roots in another order, or given again. What is compiled does not depend on it, but for the
   spelling of inputs that several roots lead to; and a root that comes again changes nothing. -/
namespace ModuleTree

def Job.upToSpelling (job : Job) :
    List Path.Component × Path × Path × Option String × String :=
  (job.input.components, job.relative, job.output, job.moduleName, job.nodeName)

namespace Tour

variable {fs : FileSystem} {roots front rest : List Path} {root : Path} {found : Found}
  {a b c : Tour}

theorem append_assoc : a ++ b ++ c = a ++ (b ++ c) := by
  cases first : a.failure with
  | some e =>
    rw [append_eq_of_failure first, append_eq_of_failure first, append_eq_of_failure first]
  | none =>
    have whole : (a ++ b).failure = b.failure := by rw [failure_append, first, Option.none_or]
    cases second : b.failure with
    | some e =>
      rw [append_eq_of_failure (whole.trans second), append_eq_of_failure second]
    | none =>
      rw [append_eq_of_none (whole.trans second), append_eq_of_none first,
        append_eq_of_none second, append_eq_of_none first, List.append_assoc]

theorem ofRoots_append : ofRoots fs (front ++ rest) = ofRoots fs front ++ ofRoots fs rest := by
  induction front with
  | nil => rfl
  | cons root front ih => rw [List.cons_append, ofRoots, ofRoots, ih, append_assoc, append_assoc]

theorem items_append : (ofRoots fs (front ++ rest)).items =
    (ofRoots fs front).before (ofRoots fs rest).items := by
  rw [← before_nil, ofRoots_append, before_append, before_nil]

theorem items_cons : (ofRoots fs (root :: rest)).items =
    (ofRoot fs root).before (ofRoots fs rest).items := by
  rw [← before_nil, ofRoots, before_append, before_visit, before_append, before_nil]
  rfl

theorem unfailing_iff : (ofRoots fs roots).failure = none ↔
    ∀ root ∈ roots, (ofRoot fs root).failure = none := by
  refine ⟨unfailing_ofRoots, fun each => ?_⟩
  by_contra failing
  obtain ⟨e, failure⟩ := Option.ne_none_iff_exists'.mp failing
  obtain ⟨root, held, here⟩ := failure_ofRoots failure
  cases (each root held).symm.trans here

theorem mem_files_ofRoots (well : (ofRoots fs roots).failure = none) :
    found ∈ (ofRoots fs roots).files ↔ ∃ root ∈ roots, found ∈ (ofRoot fs root).files := by
  refine ⟨mem_ofRoots, ?_⟩
  rintro ⟨root, held, here⟩
  obtain ⟨front, rest, rfl⟩ := List.append_of_mem held
  rw [ofRoots_append, failure_append, Option.or_eq_none_iff] at well
  have inner : (ofRoot fs root).failure = none := unfailing_ofRoots well.2 root List.mem_cons_self
  rw [ofRoots_append, files_append well.1, ofRoots, files_append rfl, files_append inner]
  exact List.mem_append_right _ (List.mem_append_right _ (List.mem_append_left _ here))

end Tour

namespace Discovery
open Tour

variable {destination : Path} {settings : Settings} {jobs jobs' kept kept' : List Job}
  {taken : Taken} {fs : FileSystem} {roots roots' front rest : List Path} {root : Path}

section Order

theorem upToSpelling_mem (first : FirstOfEach jobs kept) (first' : FirstOfEach jobs' kept')
    (same : ∀ job ∈ jobs, job ∈ jobs')
    (told : ∀ a ∈ jobs', ∀ b ∈ jobs', a.SameOutput b → a.upToSpelling = b.upToSpelling) :
    kept.map Job.upToSpelling ⊆ kept'.map Job.upToSpelling := by
  intro key mem
  obtain ⟨job, held, rfl⟩ := List.mem_map.mp mem
  have here := same job (first.sublist.subset held)
  obtain ⟨one, held', output⟩ := first'.covers job here
  exact List.mem_map.mpr ⟨one, held', told one (first'.sublist.subset held') job here output⟩

theorem upToSpelling_nodup (first : FirstOfEach jobs kept) :
    (kept.map Job.upToSpelling).Nodup := by
  refine List.pairwise_map.mpr (first.apart.imp fun apart same => apart ?_)
  exact congrArg (fun key => key.2.2.1.components) same

theorem upToSpelling_perm (first : FirstOfEach jobs kept) (first' : FirstOfEach jobs' kept')
    (same : ∀ job, job ∈ jobs ↔ job ∈ jobs')
    (told : ∀ a ∈ jobs, ∀ b ∈ jobs, a.SameOutput b → a.upToSpelling = b.upToSpelling) :
    (kept.map Job.upToSpelling).Perm (kept'.map Job.upToSpelling) := by
  have told' : ∀ a ∈ jobs', ∀ b ∈ jobs', a.SameOutput b → a.upToSpelling = b.upToSpelling :=
    fun a ma b mb => told a ((same a).mpr ma) b ((same b).mpr mb)
  refine (List.perm_ext_iff_of_nodup (upToSpelling_nodup first) (upToSpelling_nodup first')).mpr
    fun key => ⟨fun mem => ?_, fun mem => ?_⟩
  · exact upToSpelling_mem first first' (fun job => (same job).mp) told' mem
  · exact upToSpelling_mem first' first (fun job => (same job).mpr) told mem

theorem upToSpelling_ofFound {files : List Found} (genuine : ∀ found ∈ files, found.Genuine fs)
    (agree : Agree (files.map (Job.ofFound destination settings))) :
    ∀ a ∈ files.map (Job.ofFound destination settings),
      ∀ b ∈ files.map (Job.ofFound destination settings),
        a.SameOutput b → a.upToSpelling = b.upToSpelling := by
  intro a ma b mb same
  have input := agree a ma b mb same
  obtain ⟨found, mem, rfl⟩ := List.mem_map.mp ma
  obtain ⟨found', mem', rfl⟩ := List.mem_map.mp mb
  have relative := (sameOutput_iff (genuine found mem) (genuine found' mem')).mp same
  unfold Job.SameInput at input
  simp only [Job.upToSpelling, Job.ofFound, relative] at input ⊢
  rw [input]

end Order

section Repeats

theorem assign_came (took : Took jobs taken) (files : List Found)
    (came : ∀ found ∈ files, Job.ofFound destination settings found ∈ jobs) :
    (files.map Except.ok).foldlM (assign destination settings) taken = .ok taken := by
  induction files with
  | nil => rfl
  | cons found files ih =>
    obtain ⟨here, later⟩ := List.forall_mem_cons.mp came
    rw [List.map_cons, List.foldlM_cons, assign]
    have places := placed taken (Job.ofFound destination settings found)
    generalize place taken (Job.ofFound destination settings found) = placement at places
    cases places with
    | fresh new =>
      obtain ⟨e, there, key, _⟩ := took.entry here
      exact absurd key (new e there)
    | again => exact ih later
    | @collision first mem differ =>
      have held : first ∈ jobs := took.first.sublist.subset (Took.mem_kept mem)
      exact absurd (took.agree first held _ here (took.keyed _ mem).symm) differ

theorem jobs_repeated (fs : FileSystem) (destination : Path) (settings : Settings)
    (rest : List Path) (repeated : root ∈ front) :
    Discovery.jobs fs (front ++ root :: rest) destination settings =
      Discovery.jobs fs (front ++ rest) destination settings := by
  rw [jobs_eq_foldlM, jobs_eq_foldlM, items_append, items_append, items_cons]
  cases failure : (ofRoots fs front).failure with
  | some e => simp only [before, failure]
  | none =>
    -- All files of the root were taken on when it came first, so they leave the pass as it is.
    have inner := unfailing_ofRoots failure root repeated
    have came : ∀ found ∈ (ofRoot fs root).files, Job.ofFound destination settings found ∈
        (ofRoots fs front).files.map (Job.ofFound destination settings) := fun found mem =>
      List.mem_map_of_mem ((mem_files_ofRoots failure).mpr ⟨root, repeated, mem⟩)
    simp only [before, failure, inner]
    rw [List.foldlM_append, List.foldlM_append]
    rcases took_or_clash took_nil (ofRoots fs front).files with ⟨taken, well, took⟩ | ⟨e, ill, _⟩
    · have again := assign_came took _ (by simpa using came)
      simp only [well, bind, Except.bind, List.foldlM_append, again]
    · simp only [ill, bind, Except.bind]

/-- The second list is the first without some roots that had come before. -/
inductive WithoutRepeats : List Path → List Path → Prop where
  | same {roots : List Path} : WithoutRepeats roots roots
  | drop {front rest shorter : List Path} {root : Path} (repeated : root ∈ front)
      (more : WithoutRepeats (front ++ rest) shorter) :
      WithoutRepeats (front ++ root :: rest) shorter

theorem jobs_withoutRepeats (fs : FileSystem) (destination : Path) (settings : Settings)
    (shorter : WithoutRepeats roots roots') :
    Discovery.jobs fs roots destination settings =
      Discovery.jobs fs roots' destination settings := by
  induction shorter with
  | same => rfl
  | drop repeated _ ih => exact (jobs_repeated fs destination settings _ repeated).trans ih

end Repeats

section Members

theorem agree_of_subset (agree : Agree jobs) (subset : jobs' ⊆ jobs) : Agree jobs' :=
  fun a ma b mb => agree a (subset ma) b (subset mb)

variable (same : ∀ root, root ∈ roots ↔ root ∈ roots')
include same

theorem failure_of_same :
    (ofRoots fs roots).failure = none ↔ (ofRoots fs roots').failure = none := by
  simp only [unfailing_iff, same]

theorem mem_of_same (well : (ofRoots fs roots).failure = none) (found : Found) :
    found ∈ (ofRoots fs roots).files ↔ found ∈ (ofRoots fs roots').files := by
  simp only [mem_files_ofRoots well, mem_files_ofRoots ((failure_of_same same).mp well), same]

theorem ok_of_same (ok : ∃ kept, Discovery.jobs fs roots destination settings = .ok kept) :
    ∃ kept, Discovery.jobs fs roots' destination settings = .ok kept := by
  obtain ⟨well, agree⟩ := jobs_ok_iff.mp ok
  refine jobs_ok_iff.mpr ⟨(failure_of_same same).mp well, agree_of_subset agree ?_⟩
  exact List.map_subset _ fun found mem => (mem_of_same same well found).mpr mem

end Members

/-- Whether jobs are discovered does not depend on the order of the roots or on how often they
come, and neither do the jobs, but for their order and the spelling of their inputs. A root that
comes again later changes nothing at all. -/
theorem only_set_of_roots_matters (sound : fs.Sound) (roots roots' : List Path)
    (destination : Path) (settings : Settings) :
    ((∀ root, root ∈ roots ↔ root ∈ roots') →
      ((∃ jobs, Discovery.jobs fs roots destination settings = .ok jobs) ↔
        ∃ jobs, Discovery.jobs fs roots' destination settings = .ok jobs) ∧
      ∀ jobs jobs', Discovery.jobs fs roots destination settings = .ok jobs →
        Discovery.jobs fs roots' destination settings = .ok jobs' →
        (jobs.map Job.upToSpelling).Perm (jobs'.map Job.upToSpelling)) ∧
    (WithoutRepeats roots roots' → Discovery.jobs fs roots destination settings =
      Discovery.jobs fs roots' destination settings) := by
  refine ⟨fun same => ⟨⟨ok_of_same same, ok_of_same fun root => (same root).symm⟩, ?_⟩,
    jobs_withoutRepeats fs destination settings⟩
  intro jobs jobs' ok ok'
  obtain ⟨agree, first⟩ := kept_of_ok ok
  have well := (jobs_ok_iff.mp ⟨jobs, ok⟩).1
  refine upToSpelling_perm first (kept_of_ok ok').2 (fun job => ?_)
    (upToSpelling_ofFound (ofRoots_genuine sound roots) agree)
  simp only [List.mem_map, mem_of_same same well]

set_option maxRecDepth 4000 in
theorem set_of_roots_matters_for_two_spellings :
    twoOfOneName.Sound ∧
      (Discovery.jobs twoOfOneName [.ofString "lib", .ofString "lib/.", .ofString "lib"]
          (.ofString "out") {} = .ok (libJobs "lib") ∧
        Discovery.jobs twoOfOneName [.ofString "lib/.", .ofString "lib"] (.ofString "out") {} =
          .ok (libJobs "lib/.") ∧
        ((libJobs "lib").map Job.upToSpelling).Perm ((libJobs "lib/.").map Job.upToSpelling)) ∧
      WithoutRepeats [.ofString "lib", .ofString "lib/.", .ofString "lib"]
          [.ofString "lib", .ofString "lib/."] ∧
        Discovery.jobs twoOfOneName [.ofString "lib", .ofString "lib/.", .ofString "lib"]
            (.ofString "out") {} =
          Discovery.jobs twoOfOneName [.ofString "lib", .ofString "lib/."]
            (.ofString "out") {} := by
  have jobs : Discovery.jobs twoOfOneName [.ofString "lib", .ofString "lib/.", .ofString "lib"]
      (.ofString "out") {} = .ok (libJobs "lib") := by cbv
  have jobs' : Discovery.jobs twoOfOneName [.ofString "lib/.", .ofString "lib"]
      (.ofString "out") {} = .ok (libJobs "lib/.") := by cbv
  have same (root : Path) : root ∈ [Path.ofString "lib", .ofString "lib/.", .ofString "lib"] ↔
      root ∈ [Path.ofString "lib/.", .ofString "lib"] := by
    simp only [List.mem_cons, List.not_mem_nil, or_false]
    tauto
  have shorter : WithoutRepeats [.ofString "lib", .ofString "lib/.", .ofString "lib"]
      [.ofString "lib", .ofString "lib/."] :=
    @WithoutRepeats.drop [.ofString "lib", .ofString "lib/."] [] _ _ List.mem_cons_self .same
  exact ⟨twoOfOneName_sound, ⟨jobs, jobs', ((only_set_of_roots_matters twoOfOneName_sound _ _ _ _).1
    same).2 _ _ jobs jobs'⟩, shorter,
    (only_set_of_roots_matters twoOfOneName_sound _ _ _ _).2 shorter⟩

end Discovery

end ModuleTree
