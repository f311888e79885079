import Mathlib
import ModuleTree.Proofs.Run.Delivery
/- Jobs whose source cannot be compiled. Nothing is registered and nothing is written for them.
   But a job creates its output before it reads its source, so an older output is emptied and a
   missing one is there. -/
namespace ModuleTree

variable {σ : Type}

/-- The source is no text or cannot be read, or the compiler has rejected it. -/
inductive Task.Uncompiled (t : Task) : Prop where
  | unread {file : NodeId} {e : IoError} (read : ⟨.readFile file, .error e⟩ ∈ t.transcript)
  | noText {file : NodeId} {bytes : ByteArray} (read : ⟨.readFile file, .ok bytes⟩ ∈ t.transcript)
      (bad : String.fromUTF8? bytes = none)
  | rejected {request : Request} {e : CompileError}
      (asked : ⟨.compile request, .error e⟩ ∈ t.transcript)

def Founded (job : Job) (t : Transcript) : Prop :=
  (∀ x ∈ t, x.call.rank ≤ 2) ∨ ∃ id, ⟨.createFile job.output, .ok id⟩ ∈ t

section Created
open Procedure

variable {job : Job} {t : Transcript}

theorem early_concat {x : Exchange} (early : ∀ y ∈ t, y.call.rank ≤ 2) (here : x.call.rank ≤ 2) :
    ∀ y ∈ t ++ [x], y.call.rank ≤ 2 :=
  forall_concat early here

theorem keeps_founded {α : Type} (p : Procedure α) {id : NodeId}
    (created : ⟨.createFile job.output, .ok id⟩ ∈ t) :
    Keeps (Founded job) (fun _ _ => True) t p := by
  induction p generalizing t with
  | done a => trivial
  | ask call next ih =>
    intro answer
    have still := List.mem_append_left [⟨call, answer⟩] created
    exact ⟨.inr ⟨id, still⟩, ih answer still⟩

theorem openFiles_founded (early : ∀ x ∈ t, x.call.rank ≤ 2) :
    Keeps (Founded job) (Brings fun t files => ⟨.createFile job.output, .ok files.2⟩ ∈ t) t
      (openFiles job) := by
  have made : Keeps (fun t => ∀ x ∈ t, x.call.rank ≤ 2) (fun t _ => ∀ x ∈ t, x.call.rank ≤ 2) t
      (ensureParent job.output) := by
    unfold ensureParent
    split
    · exact early
    · apply keeps_mono (ensureDirectory_keeps _ early _) (fun _ => id) fun _ _ made => made.1
      intro t x early plain
      apply early_concat early
      obtain ⟨call, answer⟩ := x
      cases call <;> first | exact Nat.zero_le 2 | cases plain
  refine keeps_bind_of (keeps_mono made (fun _ => .inl) fun _ _ => id) fun t outcome _ early => ?_
  cases outcome with
  | error e => trivial
  | ok _ =>
    refine keeps_bind (keeps_call fun input => ?_)
    have opened := early_concat (x := ⟨.openFile job.input, input⟩) early (by decide : 1 ≤ 2)
    refine ⟨.inl opened, ?_⟩
    cases input with
    | error e => trivial
    | ok input =>
      refine keeps_bind (keeps_call fun output => ?_)
      have tried := early_concat (x := ⟨.createFile job.output, output⟩) opened (Nat.le_refl 2)
      refine ⟨.inl tried, ?_⟩
      cases output with
      | error e => trivial
      | ok output => exact List.mem_append_right _ List.mem_cons_self

theorem compileFile_founded (settings : Settings) (job : Job) :
    Keeps (Founded job) (fun _ _ => True) [] (compileFile settings job) := by
  refine keeps_bind (keeps_call fun answer => ?_)
  have noted := early_concat (t := []) (x := ⟨.note _, answer⟩) (by simp) (Nat.zero_le 2)
  refine ⟨.inl noted, keeps_bind_of (openFiles_founded noted) fun t outcome _ created => ?_⟩
  cases outcome with
  | error e => trivial
  | ok files => exact keeps_founded _ created

end Created

namespace Task

variable {settings : Settings} {t : Task}

theorem created_of_uncompiled (founded : Founded t.job t.transcript) (failed : t.Uncompiled) :
    ∃ id, ⟨.createFile t.job.output, .ok id⟩ ∈ t.transcript := by
  rcases founded with early | created
  · cases failed with
    | unread read => exact absurd (early _ read) (by decide : ¬3 ≤ 2)
    | noText read => exact absurd (early _ read) (by decide : ¬3 ≤ 2)
    | rejected asked => exact absurd (early _ asked) (by decide : ¬4 ≤ 2)
  · exact created

theorem modules_of_uncompiled (orderly : t.Orderly settings) (failed : t.Uncompiled) :
    t.modules = [] := by
  apply List.eq_nil_iff_forall_not_mem.mpr
  intro module mem
  obtain ⟨request, there⟩ := asked_of_module mem
  obtain ⟨_, _, file, bytes, read, text⟩ := grounds_of_regular orderly.regular _ there
  cases failed with
  | unread unread => cases eq_of_rank orderly.regular read unread (by decide : 0 < 3) rfl
  | noText other bad =>
    cases eq_of_rank orderly.regular read other (by decide : 0 < 3) rfl
    rw [bad] at text
    cases text
  | rejected asked => cases eq_of_rank orderly.regular there asked (by decide : 0 < 4) rfl

theorem begun_of_modules (sound : t.Sound settings) (none : t.modules = []) :
    t.AtStage settings .begun := by
  obtain ⟨stage, fits⟩ := sound.lawful
  have modules : stage.modules = [] := fits.modules.symm.trans none
  cases stage with
  | begun => exact fits
  | _ => cases modules

end Task

theorem contains_iff {fs : FileSystem} {p : Path} {bytes : ByteArray} :
    fs.Contains p bytes ↔ fs.named? p = some (.file bytes) :=
  FileSystem.named?_eq_some.symm

namespace Setup
open Run

variable {m : Setup σ} {jobs : List Job} {start : σ} {s : Run σ} {files : σ → FileSystem}
  {roots : List Path}

theorem unbegun_of_modules (reach : m.Reachable jobs start s) {t : Task} (mem : t ∈ s.tasks)
    (none : t.modules = []) : s.flushes = 0 := by
  have valid := valid_of_reachable reach
  rcases quiet_or_released valid with quiet | ⟨_, a, counted, released⟩
  · exact quiet.1
  · obtain ⟨module, finished⟩ := (drained valid counted released).2 t mem
    rw [(written_of_finished finished).1] at none
    cases none

theorem untried_of_modules {t : Task} (regular : Regular m.settings t.job t.transcript)
    (none : t.modules = []) : Untried t.transcript := by
  intro file bytes answer there
  obtain ⟨_, request, module, compiled, _⟩ := grounds_of_regular regular _ there
  have mem : module ∈ t.modules := List.mem_filterMap.mpr ⟨_, compiled, rfl⟩
  rw [none] at mem
  cases mem

/-- A job whose source cannot be compiled has registered nothing, written nothing and reported
nothing, and its output is an empty file from then on. So the output is what it was before the
run only if it was an empty file. -/
theorem emptied_of_uncompiled (houses : m.environment.Houses files) (sound : (files start).Sound)
    (once : (files start).NoHardLinks) (receives : (files start).Receives m.destination)
    (found : Discovery.jobs (files start) roots m.destination m.settings = .ok jobs)
    (reach : m.Reachable jobs start s) {t : Task} (mem : t ∈ s.tasks) (failed : t.Uncompiled) :
    t.modules = [] ∧ t.transcript.filterMap Exchange.written? = [] ∧ t.reports = [] ∧
      (files s.surroundings).Contains t.job.output .empty ∧
      ((files s.surroundings).named? t.job.output = (files start).named? t.job.output ↔
        (files start).Contains t.job.output .empty) := by
  have spread : Spread m.destination jobs := spread_of_discovered sound found
  have stored : Stored m files s :=
    stored_of_reachable houses ⟨sound.tree once, receives⟩ spread reach
  have none := Task.modules_of_uncompiled (orderly_of_reachable reach t mem) failed
  have begun := Task.begun_of_modules ((valid_of_reachable reach).tasks t mem) none
  have founded := (kept_of_reachable (fun _ => .inl (by simp)) (compileFile_founded m.settings)
    reach t mem).1
  obtain ⟨id, created⟩ := Task.created_of_uncompiled founded failed
  have record : (t.job, t.transcript) ∈ s.records := List.mem_map_of_mem mem
  have untried := untried_of_modules (regular_of_reachable reach _ record) none
  have holds := stored.holds _ record (.inl (unbegun_of_modules reach mem none)) id created
    (unspoiled_of_untried untried)
  have unwritten : t.transcript.filterMap Exchange.written? = [] := begun.writes
  rw [deposit_of_untried untried] at holds
  have placed := (placed_of_reachable houses reach).1 _ record _ created
  have linkFree := stored.ready.receives.linkFree _ .refl
  have lies : m.destination.Lies t.job.output := lies_of_record spread reach record
  have emptied : (files s.surroundings).Contains t.job.output .empty :=
    ⟨id, (FileSystem.resolveLink_iff linkFree lies).mpr placed, holds⟩
  refine ⟨none, unwritten, begun.reports, emptied, ?_⟩
  rw [contains_iff] at emptied ⊢
  rw [emptied]
  exact eq_comm

end Setup

section Sample

def World.refusing (refused : List String) (files : FileSystem) : World where
  files := files
  compiler := ⟨fun _ => [], fun request =>
    if request.source ∈ refused then .error (.rejected "no") else .ok ⟨request.source, []⟩⟩

def Environment.refusing (refused : List String) : Environment FileSystem := fun call files =>
  ((World.answer call (.refusing refused files)).1,
    (World.answer call (.refusing refused files)).2.files)

theorem Environment.refusing_houses (refused : List String) :
    (Environment.refusing refused).Houses id :=
  fun call files => World.answer_houses call (.refusing refused files)

def Setup.refusing (refused : List String) (destination : String) : Setup FileSystem where
  environment := .refusing refused
  settings := {}
  destination := .ofString destination
  workers := 1
  staffed := Nat.one_pos

def refusedModule (old : String) : FileSystem where
  nodes := #[.directory 0 [(Text.encode "in", 1), (Text.encode "out", 3)],
    .directory 0 [(Text.encode "a.js", 2)], .file "!".toUTF8,
    .directory 0 [(Text.encode "a.js", 4)], .file old.toUTF8]
  root := 0
  home := 0

end Sample

namespace Setup
open Run

def refusedJobs : List Job := [.below "in" "a.js" "a" "out"]

def refused : RunError := .compile (.file (.ofString "in/a.js")) (.rejected "no")

set_option maxRecDepth 4000 in
theorem refusedModule_run (old : String) :
    runSequentially (.refusing ["!"]) {} (.ofString "out") refusedJobs (refusedModule old) =
      (.error refused, refusedModule "") := by
  cbv

theorem refusedModule_reached (old : String) :
    ∃ s, (refusing ["!"] "out").Reachable refusedJobs (refusedModule old) s ∧
      s.result? = some (.error refused) ∧ s.surroundings = refusedModule "" ∧
      ∃ t ∈ s.tasks, t.job = .below "in" "a.js" "a" "out" ∧ t.Uncompiled := by
  obtain ⟨s, reach, failed, after⟩ :=
    reachable_of_run (m := refusing ["!"] "out") (refusedModule_run old)
  have valid := valid_of_reachable reach
  refine ⟨s, reach, failed, after, ?_⟩
  rcases ends_in_error valid failed with ⟨_, clash | written⟩ | ⟨_, ⟨t, mem, _, _, own⟩, _⟩
  · cases clash.1.1
  · cases written.1
  · obtain ⟨_, request, asked⟩ := own
    have job : t.job ∈ refusedJobs := valid.jobs ▸ List.mem_map_of_mem mem
    exact ⟨t, mem, List.mem_singleton.mp job, .rejected asked⟩

set_option maxRecDepth 4000 in
theorem empty_output_as_it_was :
    ∃ s, (refusing ["!"] "out").Reachable refusedJobs (refusedModule "") s ∧
      s.result? = some (.error refused) ∧
      s.surroundings.named? (.ofString "out/a.js") =
        (refusedModule "").named? (.ofString "out/a.js") := by
  obtain ⟨s, reach, failed, _, t, mem, job, uncompiled⟩ := refusedModule_reached ""
  have sound : (refusedModule "").Sound :=
    FileSystem.sound_of_numbered (by decide) (by decide) (by decide +kernel)
  have once : (refusedModule "").NoHardLinks := FileSystem.noHardLinks_of_nodup (by decide +kernel)
  have clean : (refusedModule "").Clean (.ofString "out") :=
    FileSystem.clean_of_linkless (by decide +kernel)
  have receives : (refusedModule "").Receives (.ofString "out") :=
    FileSystem.receives_of_level (sound.tree once) clean (by decide +kernel)
  have found : Discovery.jobs (refusedModule "") [.ofString "in"] (.ofString "out") {} =
      .ok refusedJobs := by cbv
  obtain ⟨_, _, _, _, as_it_was⟩ := emptied_of_uncompiled (m := refusing ["!"] "out")
    (Environment.refusing_houses ["!"]) sound once receives found reach mem uncompiled
  have output : t.job.output = .ofString "out/a.js" := by
    rw [job]
    decide +kernel
  rw [output] at as_it_was
  exact ⟨s, reach, failed, as_it_was.mpr ⟨4, by cbv, rfl⟩⟩

set_option maxRecDepth 4000 in
/-- The compiler rejects the module, and the output of an earlier run is gone. -/
theorem older_output_emptied :
    (refusedModule "old").Sound ∧ (refusedModule "old").NoHardLinks ∧
      (refusedModule "old").Receives (.ofString "out") ∧
      Discovery.jobs (refusedModule "old") [.ofString "in"] (.ofString "out") {} =
        .ok refusedJobs ∧
      ∃ s, (refusing ["!"] "out").Reachable refusedJobs (refusedModule "old") s ∧
        s.result? = some (.error refused) ∧ ∃ t ∈ s.tasks, t.Uncompiled ∧
          (refusedModule "old").Contains t.job.output "old".toUTF8 ∧
          s.surroundings.Contains t.job.output "".toUTF8 ∧
          s.surroundings.named? t.job.output ≠ (refusedModule "old").named? t.job.output := by
  obtain ⟨s, reach, failed, after, t, mem, job, uncompiled⟩ := refusedModule_reached "old"
  have sound : (refusedModule "old").Sound :=
    FileSystem.sound_of_numbered (by decide) (by decide) (by decide +kernel)
  have once : (refusedModule "old").NoHardLinks :=
    FileSystem.noHardLinks_of_nodup (by decide +kernel)
  have clean : (refusedModule "old").Clean (.ofString "out") :=
    FileSystem.clean_of_linkless (by decide +kernel)
  have receives : (refusedModule "old").Receives (.ofString "out") :=
    FileSystem.receives_of_level (sound.tree once) clean (by decide +kernel)
  have before : (refusedModule "old").Contains t.job.output "old".toUTF8 := by
    rw [job]
    exact ⟨4, by cbv, rfl⟩
  have emptied : s.surroundings.Contains t.job.output "".toUTF8 := by
    rw [job, after]
    exact ⟨4, by cbv, rfl⟩
  refine ⟨sound, once, receives, by cbv, s, reach, failed, t, mem, uncompiled, before, emptied, ?_⟩
  rw [contains_iff.mp before, contains_iff.mp emptied]
  decide +kernel

end Setup

end ModuleTree
