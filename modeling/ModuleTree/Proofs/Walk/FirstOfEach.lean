import Mathlib
import ModuleTree.Proofs.Walk.Discovered
import ModuleTree.Proofs.Walk.Iteration
/- Which of the files of a walk are compiled: for each output the first that has it. Two files
   with one output must have one path; the first file that breaks this ends the discovery. -/
namespace ModuleTree

namespace Job

def SameOutput (a b : Job) : Prop := a.output.components = b.output.components

def SameInput (a b : Job) : Prop := a.input.components = b.input.components

end Job

namespace Discovery

def candidates (destination : Path) (settings : Settings) (items : List Walk.Item) : List Job :=
  items.filterMap fun item => item.toOption.map (Job.ofFound destination settings)

/-- No two inputs have one output. -/
def Agree (jobs : List Job) : Prop := ∀ a ∈ jobs, ∀ b ∈ jobs, a.SameOutput b → a.SameInput b

/-- A job is kept if none before it has its output. -/
inductive FirstOfEach : List Job → List Job → Prop where
  | nil : FirstOfEach [] []
  | fresh {jobs kept : List Job} {job : Job} (before : FirstOfEach jobs kept)
      (new : ∀ other ∈ jobs, ¬ other.SameOutput job) : FirstOfEach (jobs ++ [job]) (kept ++ [job])
  | again {jobs kept : List Job} {job other : Job} (before : FirstOfEach jobs kept)
      (mem : other ∈ jobs) (old : other.SameOutput job) : FirstOfEach (jobs ++ [job]) kept

/-- What is said of the first job that has the output of another input, and of the earliest job
with that output. -/
inductive Clash (jobs : List Job) : WalkError → Prop where
  | intro {before between after : List Job} {first job : Job}
      (whole : jobs = before ++ first :: between ++ job :: after)
      (agree : Agree (before ++ first :: between))
      (earliest : ∀ other ∈ before, ¬ other.SameOutput job) (same : first.SameOutput job)
      (differ : ¬ first.SameInput job) :
      Clash jobs ⟨job.input, .outputCollision first.input job.output⟩

variable {destination : Path} {settings : Settings} {jobs kept later : List Job} {job : Job}
  {taken : Taken} {items : List Walk.Item} {e : WalkError}

theorem agree_concat : Agree (jobs ++ [job]) ↔
    Agree jobs ∧ ∀ other ∈ jobs, other.SameOutput job → other.SameInput job := by
  constructor
  · intro agree
    exact ⟨fun a ma b mb => agree a (List.mem_append_left _ ma) b (List.mem_append_left _ mb),
      fun other mem => agree other (List.mem_append_left _ mem) job (by simp)⟩
  · rintro ⟨agree, last⟩ a ma b mb same
    rcases List.mem_append.mp ma with early | late
    · rcases List.mem_append.mp mb with early' | late'
      · exact agree a early b early' same
      · cases List.mem_singleton.mp late'
        exact last a early same
    · cases List.mem_singleton.mp late
      rcases List.mem_append.mp mb with early' | late'
      · exact (last b early' same.symm).symm
      · cases List.mem_singleton.mp late'
        rfl

theorem not_agree_of_clash (clash : Clash jobs e) : ¬ Agree jobs := by
  cases clash with
  | intro whole _ _ same differ =>
    intro agree
    exact differ (agree _ (by simp [whole]) _ (by simp [whole]) same)

namespace FirstOfEach

theorem sublist (first : FirstOfEach jobs kept) : kept.Sublist jobs := by
  induction first with
  | nil => exact .slnil
  | fresh _ _ ih => exact ih.append_right _
  | again _ _ _ ih => exact ih.trans (List.sublist_append_left _ _)

theorem apart (first : FirstOfEach jobs kept) : kept.Pairwise fun a b => ¬ a.SameOutput b := by
  induction first with
  | nil => exact .nil
  | fresh before new ih =>
    refine List.pairwise_append.mpr ⟨ih, List.pairwise_singleton _ _, fun a mem b last => ?_⟩
    exact List.mem_singleton.mp last ▸ new a (before.sublist.subset mem)
  | again _ _ _ ih => exact ih

theorem covers (first : FirstOfEach jobs kept) :
    ∀ job ∈ jobs, ∃ one ∈ kept, one.SameOutput job := by
  induction first with
  | nil => simp
  | @fresh jobs kept job before _ ih =>
    intro other mem
    rcases List.mem_append.mp mem with early | last
    · obtain ⟨one, held, same⟩ := ih other early
      exact ⟨one, List.mem_append_left _ held, same⟩
    · exact ⟨job, by simp, by rw [List.mem_singleton.mp last]; rfl⟩
  | @again jobs kept job other before there old ih =>
    intro new mem
    rcases List.mem_append.mp mem with early | last
    · exact ih new early
    · obtain ⟨one, held, same⟩ := ih other there
      exact ⟨one, held, List.mem_singleton.mp last ▸ same.trans old⟩

theorem earliest (first : FirstOfEach jobs kept) (mem : job ∈ kept) :
    ∃ before between, jobs = before ++ job :: between ∧
      ∀ other ∈ before, ¬ other.SameOutput job := by
  induction first with
  | nil => cases mem
  | @fresh jobs kept last _ new ih =>
    rcases List.mem_append.mp mem with early | here
    · obtain ⟨before, between, whole, unlike⟩ := ih early
      exact ⟨before, between ++ [last], by simp [whole], unlike⟩
    · cases List.mem_singleton.mp here
      exact ⟨jobs, [], rfl, new⟩
  | @again jobs kept last _ _ _ _ ih =>
    obtain ⟨before, between, whole, unlike⟩ := ih mem
    exact ⟨before, between ++ [last], by simp [whole], unlike⟩

end FirstOfEach

inductive Placed (taken : Taken) (job : Job) : Placement → Prop where
  | fresh (new : ∀ e ∈ taken, e.1 ≠ job.output.components) :
      Placed taken job (.fresh job.output.components)
  | again {first : Job} (mem : (job.output.components, first) ∈ taken)
      (same : first.SameInput job) : Placed taken job .again
  | collision {first : Job} (mem : (job.output.components, first) ∈ taken)
      (differ : ¬ first.SameInput job) :
      Placed taken job (.collision ⟨job.input, .outputCollision first.input job.output⟩)

theorem placed (taken : Taken) (job : Job) : Placed taken job (place taken job) := by
  unfold place
  dsimp only
  cases found : taken.find? (·.1 = job.output.components) with
  | none => exact .fresh fun e mem => by simpa using List.find?_eq_none.mp found e mem
  | some entry =>
    obtain ⟨output, first⟩ := entry
    have key : output = job.output.components := by simpa using List.find?_some found
    have mem := key ▸ List.mem_of_find?_eq_some found
    dsimp only
    split
    · rename_i same
      exact .again mem same
    · rename_i differ
      exact .collision mem differ

structure Took (jobs : List Job) (taken : Taken) : Prop where
  keyed : ∀ e ∈ taken, e.1 = e.2.output.components
  first : FirstOfEach jobs (taken.reverse.map (·.2))
  agree : Agree jobs

theorem took_nil : Took [] [] := ⟨by simp, .nil, by simp [Agree]⟩

namespace Took

theorem mem_kept {entry : List Path.Component × Job} (mem : entry ∈ taken) :
    entry.2 ∈ taken.reverse.map (·.2) :=
  List.mem_map_of_mem (List.mem_reverse.mpr mem)

theorem entry (took : Took jobs taken) (mem : job ∈ jobs) :
    ∃ e ∈ taken, e.1 = job.output.components ∧ e.2.SameInput job := by
  obtain ⟨one, held, same⟩ := took.first.covers job mem
  obtain ⟨e, there, rfl⟩ := List.mem_map.mp held
  have there := List.mem_reverse.mp there
  exact ⟨e, there, (took.keyed e there).trans same,
    took.agree _ (took.first.sublist.subset held) _ mem same⟩

theorem fresh (took : Took jobs taken) (new : ∀ e ∈ taken, e.1 ≠ job.output.components) :
    Took (jobs ++ [job]) ((job.output.components, job) :: taken) := by
  have unlike : ∀ other ∈ jobs, ¬ other.SameOutput job := by
    intro other mem same
    obtain ⟨e, there, key, _⟩ := took.entry mem
    exact new e there (key.trans same)
  refine ⟨List.forall_mem_cons.mpr ⟨rfl, took.keyed⟩, ?_,
    agree_concat.mpr ⟨took.agree, fun other mem same => absurd same (unlike other mem)⟩⟩
  rw [List.reverse_cons, List.map_append]
  exact .fresh took.first unlike

theorem again (took : Took jobs taken) {first : Job}
    (mem : (job.output.components, first) ∈ taken) (same : first.SameInput job) :
    Took (jobs ++ [job]) taken := by
  have held : first ∈ jobs := took.first.sublist.subset (mem_kept mem)
  have output : first.SameOutput job := (took.keyed _ mem).symm
  refine ⟨took.keyed, .again took.first held output, agree_concat.mpr ⟨took.agree, ?_⟩⟩
  intro other there alike
  exact (took.agree other there first held (alike.trans output.symm)).trans same

theorem collision (took : Took jobs taken) {first : Job}
    (mem : (job.output.components, first) ∈ taken) (differ : ¬ first.SameInput job)
    (later : List Job) :
    Clash (jobs ++ job :: later) ⟨job.input, .outputCollision first.input job.output⟩ := by
  obtain ⟨before, between, whole, earliest⟩ := took.first.earliest (mem_kept mem)
  have output : first.SameOutput job := (took.keyed _ mem).symm
  subst whole
  exact .intro rfl took.agree (fun other mem same => earliest other mem (same.trans output.symm))
    output differ

end Took

theorem took_or_clash (took : Took jobs taken) (files : List Found) :
    (∃ taken', (files.map Except.ok).foldlM (assign destination settings) taken = .ok taken' ∧
        Took (jobs ++ files.map (Job.ofFound destination settings)) taken') ∨
      ∃ e, (files.map Except.ok).foldlM (assign destination settings) taken = .error e ∧
        Clash (jobs ++ files.map (Job.ofFound destination settings)) e := by
  -- `Took` is what one more file keeps, as long as it does not clash.
  induction files generalizing jobs taken with
  | nil => exact .inl ⟨taken, rfl, by simpa using took⟩
  | cons found rest ih =>
    rw [List.map_cons, List.foldlM_cons, List.map_cons, assign]
    have places := placed taken (Job.ofFound destination settings found)
    generalize place taken (Job.ofFound destination settings found) = placement at places
    cases places with
    | fresh new =>
      rw [List.append_cons]
      exact ih (took.fresh new)
    | again mem same =>
      rw [List.append_cons]
      exact ih (took.again mem same)
    | collision mem differ => exact .inr ⟨_, rfl, took.collision mem differ _⟩

/-- How a discovery ends, told by the jobs for all files and the failure of the walk. -/
inductive Outcome (jobs : List Job) (failure : Option WalkError) :
    Except WalkError (List Job) → Prop where
  | kept {kept : List Job} (well : failure = none) (agree : Agree jobs)
      (first : FirstOfEach jobs kept) : Outcome jobs failure (.ok kept)
  | failed {e : WalkError} (failed : failure = some e) (agree : Agree jobs) :
      Outcome jobs failure (.error e)
  | clashed {e : WalkError} (clash : Clash jobs e) : Outcome jobs failure (.error e)

theorem jobs_eq_foldlM (fs : FileSystem) (roots : List Path) (destination : Path)
    (settings : Settings) : Discovery.jobs fs roots destination settings =
      ((Tour.ofRoots fs roots).items.foldlM (assign destination settings) []).map
        fun taken => taken.reverse.map (·.2) :=
  collect_eq_foldlM destination settings _ [] [] _

theorem jobs_outcome (fs : FileSystem) (roots : List Path) (destination : Path)
    (settings : Settings) :
    Outcome ((Tour.ofRoots fs roots).files.map (Job.ofFound destination settings))
      (Tour.ofRoots fs roots).failure (Discovery.jobs fs roots destination settings) := by
  rw [jobs_eq_foldlM, Tour.items, List.foldlM_append]
  rcases took_or_clash took_nil (Tour.ofRoots fs roots).files with
    ⟨taken, well, took⟩ | ⟨e, ill, clash⟩
  · rw [well]
    cases failure : (Tour.ofRoots fs roots).failure with
    | none => exact .kept rfl took.agree took.first
    | some e => exact .failed rfl took.agree
  · rw [ill]
    exact .clashed clash

theorem jobs_ok_iff {fs : FileSystem} {roots : List Path} :
    (∃ kept, Discovery.jobs fs roots destination settings = .ok kept) ↔
      (Tour.ofRoots fs roots).failure = none ∧
        Agree ((Tour.ofRoots fs roots).files.map (Job.ofFound destination settings)) := by
  have outcome := jobs_outcome fs roots destination settings
  generalize Discovery.jobs fs roots destination settings = result at outcome
  cases outcome with
  | kept well agree => exact ⟨fun _ => ⟨well, agree⟩, fun _ => ⟨_, rfl⟩⟩
  | failed failed => simp [failed]
  | clashed clash => simp [not_agree_of_clash clash]

theorem kept_of_ok {fs : FileSystem} {roots : List Path}
    (ok : Discovery.jobs fs roots destination settings = .ok kept) :
    Agree ((Tour.ofRoots fs roots).files.map (Job.ofFound destination settings)) ∧
      FirstOfEach ((Tour.ofRoots fs roots).files.map (Job.ofFound destination settings)) kept := by
  have outcome := jobs_outcome fs roots destination settings
  rw [ok] at outcome
  cases outcome with
  | kept _ agree first => exact ⟨agree, first⟩

theorem candidates_items (t : Tour) :
    candidates destination settings t.items = t.files.map (Job.ofFound destination settings) := by
  unfold candidates Tour.items
  cases t.failure <;>
    simp [List.filterMap_append, List.filterMap_map, Except.toOption]

section Output

variable {fs : FileSystem} {found found' : Found}

theorem output_components (genuine : found.Genuine fs) :
    (Job.ofFound destination settings found).output.components =
      destination.components ++ found.relative.names.map .name := by
  obtain ⟨names, _, valid, relative⟩ := genuine.relative
  rw [Job.ofFound, relative, Path.names_join valid]
  exact Path.components_append_join valid

theorem sameOutput_iff (genuine : found.Genuine fs) (genuine' : found'.Genuine fs) :
    (Job.ofFound destination settings found).SameOutput (.ofFound destination settings found') ↔
      found.relative = found'.relative := by
  constructor
  · intro same
    rw [Job.SameOutput, output_components genuine, output_components genuine',
      List.append_cancel_left_eq] at same
    have names := Path.names_of_components same
    obtain ⟨_, _, valid, relative⟩ := genuine.relative
    obtain ⟨_, _, valid', relative'⟩ := genuine'.relative
    rw [relative, relative', Path.names_join valid, Path.names_join valid'] at names
    rw [relative, relative', names]
  · intro same
    rw [Job.SameOutput, Job.ofFound, Job.ofFound, same]

end Output

/-- What a discovery makes of the items of its walk. -/
structure Settles (destination : Path) (settings : Settings) (items : List Walk.Item)
    (result : Except WalkError (List Job)) : Prop where
  ok_iff : (∃ kept, result = .ok kept) ↔
    (∀ e, .error e ∉ items) ∧ Agree (candidates destination settings items)
  kept : ∀ kept, result = .ok kept → FirstOfEach (candidates destination settings items) kept
  apart : ∀ kept, result = .ok kept → kept.Pairwise fun a b => ¬ a.SameOutput b
  covers : ∀ kept, result = .ok kept → ∀ job ∈ candidates destination settings items,
    ∃ one ∈ kept, one.SameOutput job ∧ one.SameInput job
  error : ∀ e, result = .error e → Clash (candidates destination settings items) e ∨
    Agree (candidates destination settings items) ∧ items.getLast? = some (.error e)

/-- The first file of each output is compiled, and all files of one output are one file by their
paths; or the error is the one of the walk, unless two files before it clash. -/
theorem first_of_each_output_compiled {fs : FileSystem} {roots : List Path} (sound : fs.Sound)
    (gives : Walk.Gives fs (.ofRoots roots) items) (destination : Path) (settings : Settings) :
    Settles destination settings items (Discovery.jobs fs roots destination settings) := by
  cases Walk.gives_unique gives (Walk.gives_items sound roots)
  have ok_iff : (∃ kept, Discovery.jobs fs roots destination settings = .ok kept) ↔ _ := jobs_ok_iff
  rw [Tour.failure_eq_none, ← candidates_items] at ok_iff
  have outcome := jobs_outcome fs roots destination settings
  rw [← candidates_items] at outcome
  generalize Discovery.jobs fs roots destination settings = result at ok_iff outcome
  cases outcome with
  | kept _ agree first =>
    refine ⟨ok_iff, ?_, ?_, ?_, by rintro _ ⟨⟩⟩
    · rintro _ ⟨⟩
      exact first
    · rintro _ ⟨⟩
      exact first.apart
    · rintro _ ⟨⟩ job mem
      obtain ⟨one, held, same⟩ := first.covers job mem
      exact ⟨one, held, same, agree one (first.sublist.subset held) job mem same⟩
  | failed failed agree =>
    refine ⟨ok_iff, by rintro _ ⟨⟩, by rintro _ ⟨⟩, by rintro _ ⟨⟩, ?_⟩
    rintro _ ⟨⟩
    exact .inr ⟨agree, by simp [Tour.items, failed]⟩
  | clashed clash =>
    refine ⟨ok_iff, by rintro _ ⟨⟩, by rintro _ ⟨⟩, by rintro _ ⟨⟩, ?_⟩
    rintro _ ⟨⟩
    exact .inl clash

def twoOfOneName : FileSystem where
  nodes := #[.directory 0 [(Text.encode "lib", 1), (Text.encode "mod", 4)],
    .directory 0 [(Text.encode "a.js", 2), (Text.encode "b.js", 3)], .file "a".toUTF8,
    .file "b".toUTF8, .directory 0 [(Text.encode "a.js", 5)], .file "other".toUTF8]
  root := 0
  home := 0

def libJobs (lib : String) : List Job :=
  [⟨.ofString (lib ++ "/a.js"), .ofString "a.js", .ofString "out/a.js", none, "a"⟩,
    ⟨.ofString (lib ++ "/b.js"), .ofString "b.js", .ofString "out/b.js", none, "b"⟩]

def overlappingItems : List Walk.Item :=
  [.ok ⟨.ofString "lib/a.js", .ofString "a.js"⟩, .ok ⟨.ofString "lib/b.js", .ofString "b.js"⟩,
    .ok ⟨.ofString "lib/a.js", .ofString "a.js"⟩]

def clashingItems : List Walk.Item :=
  overlappingItems ++ [.ok ⟨.ofString "mod/a.js", .ofString "a.js"⟩]

theorem twoOfOneName_sound : twoOfOneName.Sound :=
  FileSystem.sound_of_numbered (by decide) (by decide) (by decide +kernel)

set_option maxRecDepth 4000 in
theorem first_compiled_of_overlapping_and_of_clashing :
    twoOfOneName.Sound ∧
      (Walk.Gives twoOfOneName (.ofRoots [.ofString "lib", .ofString "lib/a.js"])
          overlappingItems ∧
        Settles (.ofString "out") {} overlappingItems (Discovery.jobs twoOfOneName
          [.ofString "lib", .ofString "lib/a.js"] (.ofString "out") {})) ∧
      Walk.Gives twoOfOneName
          (.ofRoots [.ofString "lib", .ofString "lib/a.js", .ofString "mod"]) clashingItems ∧
        Settles (.ofString "out") {} clashingItems (Discovery.jobs twoOfOneName
          [.ofString "lib", .ofString "lib/a.js", .ofString "mod"] (.ofString "out") {}) := by
  have overlapping : (Tour.ofRoots twoOfOneName [.ofString "lib", .ofString "lib/a.js"]).items =
      overlappingItems := by cbv
  have clashing : (Tour.ofRoots twoOfOneName
      [.ofString "lib", .ofString "lib/a.js", .ofString "mod"]).items = clashingItems := by cbv
  have sound := twoOfOneName_sound
  have gives := overlapping ▸ Walk.gives_items sound [.ofString "lib", .ofString "lib/a.js"]
  have gives' := clashing ▸
    Walk.gives_items sound [.ofString "lib", .ofString "lib/a.js", .ofString "mod"]
  exact ⟨sound, ⟨gives, first_of_each_output_compiled sound gives _ _⟩, gives',
    first_of_each_output_compiled sound gives' _ _⟩

end Discovery

end ModuleTree
