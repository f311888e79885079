import Mathlib
import ModuleTree.Proofs.Walk.Relative
import ModuleTree.Proofs.Walk.RootSet
/- Counting files and discovering jobs. Each file below one root is relative to it by names of its
   own, so that nothing is dropped there: a job comes of each file that is counted, or both passes
   end in the same error. Counts of several roots add up, and there are fewer jobs than files just
   when files share outputs. -/
namespace ModuleTree

namespace Tour

variable {fs : FileSystem} {root : Path} {roots : List Path} {t : Tour} {e : WalkError} {n : Nat}

theorem count_ok_iff : t.count = .ok n ↔ t.failure = none ∧ t.files.length = n := by
  unfold count
  cases t.failure <;> simp

theorem count_error_iff : t.count = .error e ↔ t.failure = some e := by
  unfold count
  cases t.failure <;> simp

theorem failure_single : (ofRoots fs [root]).failure = (ofRoot fs root).failure := by
  rw [ofRoots, failure_append, failure_append, Option.none_or]
  exact Option.or_none

theorem files_single : (ofRoots fs [root]).files = (ofRoot fs root).files := by
  rw [ofRoots, ofRoots, append_empty, files_append rfl]
  rfl

theorem increasing_ofRoot (sound : fs.Sound) (root : Path) :
    (ofRoot fs root).files.Pairwise fun a b => a.relative.names < b.relative.names := by
  have covers := coversRoot_ofRoot sound root
  generalize ofRoot fs root = tour at covers
  cases covers with
  | stopped => exact .nil
  | @passed visit =>
    cases visit with
    | file => exact List.pairwise_singleton _ _
    | _ => exact .nil
  | entered arrives covers =>
    obtain ⟨opened, listed⟩ := enterRoot_inside arrives
    exact covers.increasing sound (.root opened) (fun e mem => mem_inOrder.mp (listed ▸ mem))
      (listed ▸ increasing_inOrder (sound.distinct _)) opened.resolved

theorem counts_of_roots (counted : (ofRoots fs roots).count = .ok n) :
    ∃ counts, List.Forall₂ (fun root k => (ofRoots fs [root]).count = .ok k) roots counts ∧
      counts.sum = n := by
  induction roots generalizing n with
  | nil =>
    obtain ⟨_, rfl⟩ := count_ok_iff.mp counted
    exact ⟨[], .nil, rfl⟩
  | cons root roots ih =>
    obtain ⟨well, rfl⟩ := count_ok_iff.mp counted
    rw [ofRoots, failure_append, failure_append, Option.none_or, Option.or_eq_none_iff] at well
    obtain ⟨counts, each, total⟩ := ih (count_ok_iff.mpr ⟨well.2, rfl⟩)
    refine ⟨(ofRoot fs root).files.length :: counts, .cons ?_ each, ?_⟩
    · exact count_ok_iff.mpr ⟨failure_single.trans well.1, by rw [files_single]⟩
    · rw [List.sum_cons, total, ofRoots, files_append rfl, files_append well.1, List.length_append,
        List.length_append]
      exact (Nat.zero_add _).symm

end Tour

namespace Discovery
open Tour

variable {destination : Path} {settings : Settings} {jobs kept : List Job} {fs : FileSystem}
  {root : Path} {roots : List Path} {items : List Walk.Item} {e : WalkError}

def Apart (jobs : List Job) : Prop := jobs.Pairwise fun a b => ¬ a.SameOutput b

theorem eq_of_apart (first : FirstOfEach jobs kept) (apart : Apart jobs) : kept = jobs := by
  induction first with
  | nil => rfl
  | fresh _ _ ih => rw [ih (List.pairwise_append.mp apart).1]
  | again _ mem old =>
    exact absurd old ((List.pairwise_append.mp apart).2.2 _ mem _ List.mem_cons_self)

theorem length_eq_iff (first : FirstOfEach jobs kept) :
    kept.length = jobs.length ↔ Apart jobs := by
  constructor
  · intro same
    rw [← first.sublist.eq_of_length same]
    exact first.apart
  · intro apart
    rw [eq_of_apart first apart]

theorem not_apart_of_clash (clash : Clash jobs e) : ¬ Apart jobs := by
  cases clash with
  | intro whole _ _ same =>
    intro apart
    rw [whole] at apart
    exact (List.pairwise_append.mp apart).2.2 _ (by simp) _ List.mem_cons_self same

theorem jobs_of_apart
    (apart : Apart ((ofRoots fs roots).files.map (.ofFound destination settings))) :
    Discovery.jobs fs roots destination settings = (ofRoots fs roots).count.map fun _ =>
      (ofRoots fs roots).files.map (.ofFound destination settings) := by
  have outcome := jobs_outcome fs roots destination settings
  generalize Discovery.jobs fs roots destination settings = result at outcome
  cases outcome with
  | kept well _ first => rw [eq_of_apart first apart, count_ok_iff.mpr ⟨well, rfl⟩, Except.map]
  | failed failed => rw [count_error_iff.mpr failed, Except.map]
  | clashed clash => exact absurd apart (not_apart_of_clash clash)

theorem apart_of_root (sound : fs.Sound) (root destination : Path) (settings : Settings) :
    Apart ((ofRoots fs [root]).files.map (.ofFound destination settings)) := by
  have genuine : ∀ found ∈ (ofRoot fs root).files, found.Genuine fs := ofRoot_genuine sound
  rw [files_single]
  refine List.pairwise_map.mpr ((increasing_ofRoot sound root).imp_of_mem ?_)
  intro a b mem mem' before same
  rw [(sameOutput_iff (genuine a mem) (genuine b mem')).mp same] at before
  exact List.lt_irrefl _ before

/-- Discovering jobs below one root goes as counting its files does, and drops none of them. Over
several roots files are counted root by root, and as many jobs are discovered unless two files
share an output. -/
theorem discovered_as_counted (sound : fs.Sound) (destination : Path) (settings : Settings) :
    (∀ root items, Walk.Gives fs (.ofRoots [root]) items →
      Discovery.jobs fs [root] destination settings =
        (ofRoots fs [root]).count.map (fun _ => candidates destination settings items) ∧
      (∀ n, (∃ jobs, Discovery.jobs fs [root] destination settings = .ok jobs ∧ jobs.length = n) ↔
        (ofRoots fs [root]).count = .ok n) ∧
      ∀ e, (Discovery.jobs fs [root] destination settings = .error e ↔
          (ofRoots fs [root]).count = .error e) ∧
        (Discovery.jobs fs [root] destination settings = .error e → e.problem.Met)) ∧
    ∀ roots items jobs n, Walk.Gives fs (.ofRoots roots) items →
      Discovery.jobs fs roots destination settings = .ok jobs →
      (ofRoots fs roots).count = .ok n →
      (∃ counts, List.Forall₂ (fun root k => (ofRoots fs [root]).count = .ok k) roots counts ∧
        counts.sum = n) ∧
      jobs.length ≤ n ∧ (jobs.length = n ↔ Apart (candidates destination settings items)) := by
  constructor
  · intro root items gives
    cases Walk.gives_unique gives (Walk.gives_items sound [root])
    rw [candidates_items, jobs_of_apart (apart_of_root sound root destination settings)]
    cases counted : (ofRoots fs [root]).count with
    | error e =>
      have met := met_of_failure sound (count_error_iff.mp counted)
      refine ⟨rfl, by simp [Except.map], fun e' => ⟨by simp [Except.map], ?_⟩⟩
      rintro ⟨⟩
      exact met
    | ok k =>
      obtain ⟨_, rfl⟩ := count_ok_iff.mp counted
      exact ⟨rfl, by simp [Except.map], by simp [Except.map]⟩
  · intro roots items jobs n gives ok counted
    cases Walk.gives_unique gives (Walk.gives_items sound roots)
    have first := (kept_of_ok ok).2
    obtain ⟨_, rfl⟩ := count_ok_iff.mp counted
    rw [candidates_items, ← length_eq_iff first, List.length_map]
    refine ⟨counts_of_roots counted, ?_, Iff.rfl⟩
    simpa using first.sublist.length_le

set_option maxRecDepth 4000 in
theorem discovered_as_counted_over_overlapping_roots :
    twoOfOneName.Sound ∧
      Walk.Gives twoOfOneName (.ofRoots [.ofString "lib", .ofString "lib/a.js"])
        overlappingItems ∧
      Discovery.jobs twoOfOneName [.ofString "lib", .ofString "lib/a.js"] (.ofString "out") {} =
        .ok (libJobs "lib") ∧
      (ofRoots twoOfOneName [.ofString "lib", .ofString "lib/a.js"]).count = .ok 3 ∧
      (∃ counts, List.Forall₂ (fun root k => (ofRoots twoOfOneName [root]).count = .ok k)
        [.ofString "lib", .ofString "lib/a.js"] counts ∧ counts.sum = 3) ∧
      ¬ Apart (candidates (.ofString "out") {} overlappingItems) ∧
      Walk.Gives twoOfOneName (.ofRoots [.ofString "lib"]) (overlappingItems.take 2) ∧
      Discovery.jobs twoOfOneName [.ofString "lib"] (.ofString "out") {} =
        .ok (candidates (.ofString "out") {} (overlappingItems.take 2)) := by
  have items : (ofRoots twoOfOneName [.ofString "lib", .ofString "lib/a.js"]).items =
      overlappingItems := by cbv
  have items' : (ofRoots twoOfOneName [.ofString "lib"]).items = overlappingItems.take 2 := by cbv
  have jobs : Discovery.jobs twoOfOneName [.ofString "lib", .ofString "lib/a.js"]
      (.ofString "out") {} = .ok (libJobs "lib") := by cbv
  have counted : (ofRoots twoOfOneName [.ofString "lib", .ofString "lib/a.js"]).count = .ok 3 := by
    cbv
  have counted' : (ofRoots twoOfOneName [.ofString "lib"]).count = .ok 2 := by cbv
  have sound := twoOfOneName_sound
  have gives := items ▸ Walk.gives_items sound [.ofString "lib", .ofString "lib/a.js"]
  have gives' := items' ▸ Walk.gives_items sound [.ofString "lib"]
  obtain ⟨single, several⟩ := discovered_as_counted sound (.ofString "out") {}
  obtain ⟨counts, _, fewer⟩ := several _ _ _ _ gives jobs counted
  refine ⟨sound, gives, jobs, counted, counts, fun apart => ?_, gives', ?_⟩
  · exact absurd (fewer.mpr apart) (by decide)
  · rw [(single _ _ gives').1, counted', Except.map]

end Discovery

end ModuleTree
