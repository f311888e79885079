import ModuleTree.Proofs.Run.Invariant
/- The calls of a job, one by one. Each of the two files is opened once, the source is read, it
   is compiled once and the code is written once, in this order; and what is read, compiled and
   written is what the calls before have brought. -/
namespace ModuleTree

/-- The place of a call in the course of a job. Calls without a place may come at any time. -/
def Call.rank : Call → Nat
  | .openFile _ => 1
  | .createFile _ => 2
  | .readFile _ => 3
  | .compile _ => 4
  | .report (.compiled _ _) => 5
  | .writeFile _ _ => 6
  | .report (.finished _) => 7
  | .pathExists _ | .isDirectory _ | .makeDirectory _ | .note _ => 0

namespace Job

def Above (job : Job) (p : Path) : Prop :=
  ∃ parent, job.output.parent? = some parent ∧ p ∈ parent.chain ∧ p.isEmpty = false

/-- What a call rests on. -/
def Grounds (settings : Settings) (job : Job) (t : Transcript) : Call → Prop
  | .makeDirectory p => job.Above p
  | .openFile p => p = job.input
  | .createFile p => p = job.output
  | .readFile file => ⟨.openFile job.input, .ok file⟩ ∈ t
  | .compile request => request.moduleName = job.moduleName ∧ request.settings = settings ∧
      ∃ file bytes, ⟨.readFile file, .ok bytes⟩ ∈ t ∧
        String.fromUTF8? bytes = some request.source
  | .writeFile file bytes => ⟨.createFile job.output, .ok file⟩ ∈ t ∧
      ∃ request module, ⟨.compile request, .ok module⟩ ∈ t ∧ bytes = module.code.toUTF8
  | .pathExists _ | .isDirectory _ | .report _ | .note _ => True

/-- A call in its turn. The last report is the last call. -/
structure Permits (settings : Settings) (job : Job) (t : Transcript) (c : Call) : Prop where
  unfinished : ∀ x ∈ t, x.call.rank < 7
  turn : 0 < c.rank → ∀ x ∈ t, x.call.rank < c.rank
  grounds : job.Grounds settings t c

end Job

inductive Regular (settings : Settings) (job : Job) : Transcript → Prop where
  | nil : Regular settings job []
  | concat {t : Transcript} {x : Exchange} (regular : Regular settings job t)
      (permits : job.Permits settings t x.call) : Regular settings job (t ++ [x])

section Regular

variable {settings : Settings} {job : Job} {t t' : Transcript}

theorem grounds_mono {c : Call} (h : job.Grounds settings t c) (more : t ⊆ t') :
    job.Grounds settings t' c := by
  cases c with
  | readFile file => exact more h
  | compile request =>
    obtain ⟨name, same, file, bytes, read, text⟩ := h
    exact ⟨name, same, file, bytes, more read, text⟩
  | writeFile file bytes =>
    obtain ⟨created, request, module, compiled, same⟩ := h
    exact ⟨more created, request, module, more compiled, same⟩
  | _ => exact h

theorem permits_of_regular_concat {x : Exchange} (h : Regular settings job (t ++ [x])) :
    job.Permits settings t x.call := by
  generalize whole : t ++ [x] = u at h
  cases h with
  | nil => simp at whole
  | @concat t' x' regular permits =>
    obtain ⟨same, last⟩ := List.append_inj' whole rfl
    cases last
    rwa [same]

theorem grounds_of_regular (h : Regular settings job t) :
    ∀ x ∈ t, job.Grounds settings t x.call := by
  induction h with
  | nil => simp
  | @concat t y _ permits ih =>
    have more := List.subset_append_left t [y]
    exact forall_concat (fun x old => grounds_mono (ih x old) more)
      (grounds_mono permits.grounds more)

theorem ranked_once (h : Regular settings job t) {rank : Nat} (ranked : 0 < rank) :
    t.countP (fun x => x.call.rank = rank) ≤ 1 := by
  induction h with
  | nil => simp
  | @concat t x _ permits ih =>
    rw [List.countP_append]
    by_cases here : x.call.rank = rank
    · have none : t.countP (fun x => x.call.rank = rank) = 0 := by
        refine List.countP_eq_zero.mpr fun y mem => ?_
        have before := permits.turn (by omega) y mem
        simp only [decide_eq_true_eq]
        omega
      rw [none]
      simp [here]
    · simpa [here] using ih

theorem eq_of_rank (h : Regular settings job t) {x y : Exchange} (memx : x ∈ t) (memy : y ∈ t)
    (ranked : 0 < x.call.rank) (same : y.call.rank = x.call.rank) : x = y := by
  have once := ranked_once h ranked
  rw [List.countP_eq_length_filter] at once
  have inx : x ∈ t.filter fun z => z.call.rank = x.call.rank := by simp [memx]
  have iny : y ∈ t.filter fun z => z.call.rank = x.call.rank := by simp [memy, same]
  cases found : t.filter fun z => z.call.rank = x.call.rank with
  | nil => simp [found] at inx
  | cons z rest =>
    have none : rest = [] := by
      rw [found, List.length_cons] at once
      exact List.eq_nil_of_length_eq_zero (by omega)
    rw [found, none, List.mem_singleton] at inx iny
    rw [inx, iny]

end Regular

section Calls
open Procedure

structure Steady (settings : Settings) (job : Job) (rank : Nat) (t : Transcript) : Prop where
  regular : Regular settings job t
  upto : ∀ x ∈ t, x.call.rank ≤ rank

variable {settings : Settings} {job : Job} {t : Transcript} {rank : Nat}

theorem Call.rank_le (c : Call) : c.rank ≤ 7 := by
  unfold rank
  split <;> omega

theorem Steady.call {c : Call} (h : Steady settings job rank t) (later : rank < c.rank)
    (grounds : job.Grounds settings t c) (answer : c.Answer) :
    Steady settings job c.rank (t ++ [⟨c, answer⟩]) where
  regular := by
    have top := c.rank_le
    refine .concat h.regular ⟨fun x mem => ?_, fun _ x mem => ?_, grounds⟩
    · have := h.upto x mem
      omega
    · have := h.upto x mem
      exact Nat.lt_of_le_of_lt this later
  upto := forall_concat (fun x old => by have := h.upto x old; omega) (Nat.le_refl c.rank)

theorem Steady.aside {x : Exchange} (h : Steady settings job rank t) (early : rank < 7)
    (unranked : x.call.rank = 0) (grounds : job.Grounds settings t x.call) :
    Steady settings job rank (t ++ [x]) where
  regular := by
    refine .concat h.regular ⟨fun y mem => ?_, fun ranked => by omega, grounds⟩
    have := h.upto y mem
    omega
  upto := forall_concat h.upto (unranked ▸ Nat.zero_le rank)

def Brings {ε α : Type} (good : Transcript → α → Prop) (t : Transcript) : Except ε α → Prop
  | .error _ => True
  | .ok a => good t a

theorem report_steady {event : Event} (h : Steady settings job rank t)
    (later : rank < (Call.report event).rank) :
    Keeps (Regular settings job)
      (Brings fun t _ => Steady settings job (Call.report event).rank t) t (report event) := by
  refine keeps_bind (keeps_call fun answer => ?_)
  have told := h.call later trivial answer
  refine ⟨told.regular, ?_⟩
  cases answer with
  | true => exact told
  | false => trivial

theorem ensureParent_steady (h : Steady settings job 0 t) :
    Keeps (Regular settings job) (fun t _ => Steady settings job 0 t) t
      (ensureParent job.output) := by
  unfold ensureParent
  split
  · exact h
  · rename_i parent above
    have made : Keeps (Steady settings job 0) (Made (Steady settings job 0)) t
        (ensureChain parent.chain) := by
      refine ensureChain_keeps (fun t x steady plain within => ?_) h
      obtain ⟨call, answer⟩ := x
      refine steady.aside (by omega) ?_ ?_
      · cases call <;> first | rfl | cases plain
      · cases call with
        | makeDirectory p => exact ⟨parent, above, within p rfl⟩
        | _ => trivial
    exact keeps_mono made (fun _ => Steady.regular) fun _ _ made => made.1

theorem openFiles_steady (h : Steady settings job 0 t) :
    Keeps (Regular settings job)
      (Brings fun t files => Steady settings job 2 t ∧
        ⟨.openFile job.input, .ok files.1⟩ ∈ t ∧ ⟨.createFile job.output, .ok files.2⟩ ∈ t) t
      (openFiles job) := by
  refine keeps_bind_of (ensureParent_steady h) fun t outcome _ made => ?_
  cases outcome with
  | error e => trivial
  | ok _ =>
    refine keeps_bind (keeps_call fun input => ?_)
    have opened := made.call (c := .openFile job.input) (by decide : 0 < 1) rfl input
    refine ⟨opened.regular, ?_⟩
    cases input with
    | error e => trivial
    | ok input =>
      refine keeps_bind (keeps_call fun output => ?_)
      have created := opened.call (c := .createFile job.output) (by decide : 1 < 2) rfl output
      refine ⟨created.regular, ?_⟩
      cases output with
      | error e => trivial
      | ok output => exact ⟨created, by simp, by simp⟩

theorem readSource_steady {input output : NodeId} (h : Steady settings job 2 t)
    (opened : ⟨.openFile job.input, .ok input⟩ ∈ t) :
    Keeps (Regular settings job)
      (Brings fun t source => Steady settings job 3 t ∧
        ∃ bytes, ⟨.readFile input, .ok bytes⟩ ∈ t ∧ String.fromUTF8? bytes = some source) t
      (readSource (fileCalls input output) (.file job.input)) := by
  refine keeps_bind (keeps_call fun answer => ?_)
  have read := h.call (c := .readFile input) (by decide : 2 < 3) opened answer
  refine ⟨read.regular, ?_⟩
  cases answer with
  | error e => trivial
  | ok bytes =>
    dsimp only
    split
    · trivial
    · rename_i source text
      refine keeps_bind (keeps_call fun answer => ?_)
      have noted := read.aside (x := ⟨.note _, answer⟩) (by decide : 3 < 7) rfl trivial
      exact ⟨noted.regular, noted, bytes, by simp, text⟩

theorem reportCompiled_steady {module : Compiled} (h : Steady settings job 4 t) :
    Keeps (Regular settings job) (Brings fun t _ => Steady settings job 5 t) t
      (reportCompiled job settings module) := by
  unfold reportCompiled
  split
  · exact report_steady h (by decide : 4 < 5)
  · exact ⟨h.regular, fun x mem => Nat.le_succ_of_le (h.upto x mem)⟩

theorem compileStream_steady {input output : NodeId} (h : Steady settings job 2 t)
    (opened : ⟨.openFile job.input, .ok input⟩ ∈ t)
    (created : ⟨.createFile job.output, .ok output⟩ ∈ t) :
    Keeps (Regular settings job) (Brings fun t _ => Steady settings job 6 t) t
      (compileStream (fileCalls input output) (.file job.input) (.file job.output)
        job.moduleName settings (reportCompiled job settings)) := by
  refine keeps_bind_of (readSource_steady h opened) fun t₁ source before read => ?_
  cases source with
  | error e => trivial
  | ok source =>
    obtain ⟨steady, bytes, read, text⟩ := read
    refine keeps_bind (keeps_call fun answer => ?_)
    have compiled := steady.call (c := .compile ⟨source, job.moduleName, settings⟩)
      (by decide : 3 < 4) ⟨rfl, rfl, input, bytes, read, text⟩ answer
    refine ⟨compiled.regular, ?_⟩
    cases answer with
    | error e => trivial
    | ok module =>
      refine keeps_bind_of (reportCompiled_steady compiled) fun t₂ verdict further recorded => ?_
      cases verdict with
      | error e => trivial
      | ok _ =>
        refine keeps_bind (keeps_call fun answer => ?_)
        -- Nothing of the transcript is lost since the output was created.
        have still : ⟨.createFile job.output, .ok output⟩ ∈ t₂ :=
          further.subset (List.mem_append_left _ (before.subset created))
        have written := Steady.call (c := .writeFile output module.code.toUTF8) recorded
          (by decide : 5 < 6) ⟨still, ⟨source, job.moduleName, settings⟩, module,
            further.subset (by simp), rfl⟩ answer
        refine ⟨written.regular, ?_⟩
        cases answer with
        | error e => trivial
        | ok _ => exact written

theorem compileFile_regular (settings : Settings) (job : Job) :
    Keeps (Regular settings job) (fun _ _ => True) [] (compileFile settings job) := by
  have start : Steady settings job 0 [] := ⟨.nil, by simp⟩
  refine keeps_bind (keeps_call fun answer => ?_)
  have noted := start.aside (x := ⟨.note _, answer⟩) (by decide) rfl trivial
  refine ⟨noted.regular, keeps_bind_of (openFiles_steady noted) fun t₁ outcome _ opened => ?_⟩
  cases outcome with
  | error e => trivial
  | ok files =>
    refine keeps_bind_of (compileStream_steady opened.1 opened.2.1 opened.2.2)
      fun t₂ outcome _ ends => ?_
    cases outcome with
    | error e => trivial
    | ok module =>
      exact keeps_mono (report_steady ends (by decide : 6 < 7)) (fun _ => id) fun _ _ _ => trivial

end Calls

namespace Task
open Procedure

variable {settings : Settings} {t t' : Task}

structure Orderly (settings : Settings) (t : Task) : Prop where
  regular : Regular settings t.job t.transcript
  keeps : Keeps (Regular settings t.job) (fun _ _ => True) t.transcript t.rest

theorem permits_of_ask {call : Call} {next : call.Answer → Procedure (Except RunError Unit)}
    (orderly : t.Orderly settings) (rest : t.rest = .ask call next) (answer : call.Answer) :
    t.job.Permits settings t.transcript call := by
  have keeps := orderly.keeps
  rw [rest] at keeps
  exact permits_of_regular_concat (x := ⟨call, answer⟩) (keeps answer).1

theorem answer_of_call (call : Call) : Nonempty call.Answer := by
  cases call <;>
    first | exact ⟨true⟩ | exact ⟨()⟩ | exact ⟨.error .notFound⟩ | exact ⟨.error (.rejected "")⟩

theorem succeeded_of_finished {module : Compiled} (sound : t.Sound settings)
    (orderly : t.Orderly settings) (finished : t.AtStage settings (.finished module)) :
    t.result? = some (.ok ()) := by
  cases rest : t.rest with
  | done result =>
    have ends : t.result? = some result := by simp [result?, rest]
    cases result with
    | ok _ => exact ends
    | error e => exact absurd finished (unfinished_of_error sound ends module)
  | ask call next =>
    obtain ⟨answer⟩ := answer_of_call call
    have permits := permits_of_ask orderly rest answer
    have reported : Event.finished t.job.output ∈ t.transcript.filterMap Exchange.heard? := by
      rw [finished.reports]
      simp [Stage.reports]
    obtain ⟨⟨made, told⟩, mem, heard⟩ := List.mem_filterMap.mp reported
    cases made with
    | report event =>
      cases told with
      | true =>
        cases heard
        exact absurd (permits.unfinished _ mem) (Nat.lt_irrefl 7)
      | false => cases heard
    | _ => cases heard

end Task

namespace Setup

variable {σ : Type} {m : Setup σ} {jobs : List Job} {start : σ} {s : Run σ}

theorem kept_of_reachable {inv : Job → Transcript → Prop} (nil : ∀ job, inv job [])
    (keeps : ∀ job, Procedure.Keeps (inv job) (fun _ _ => True) [] (compileFile m.settings job))
    (reach : m.Reachable jobs start s) : ∀ t ∈ s.tasks, inv t.job t.transcript ∧
      Procedure.Keeps (inv t.job) (fun _ _ => True) t.transcript t.rest := by
  induction reach with
  | start =>
    intro t mem
    obtain ⟨job, _, same⟩ := List.mem_map.mp mem
    exact same ▸ ⟨nil job, keeps job⟩
  | step _ step ih =>
    rcases step_tasks step with same | ⟨before, t, t', after, old, new, advances⟩
    · rwa [same]
    · rw [old] at ih
      rw [new]
      apply forall_replaced ih
      have here := ih t (by simp)
      cases advances with
      | starts => exact here
      | answered started rest answer =>
        have further := here.2
        rw [rest] at further
        exact further answer

theorem orderly_of_reachable (reach : m.Reachable jobs start s) :
    ∀ t ∈ s.tasks, t.Orderly m.settings := by
  intro t mem
  obtain ⟨regular, keeps⟩ :=
    kept_of_reachable (fun _ => Regular.nil) (compileFile_regular m.settings) reach t mem
  exact ⟨regular, keeps⟩

theorem succeeded_of_released (valid : s.Valid m jobs)
    (orderly : ∀ t ∈ s.tasks, t.Orderly m.settings) (released : s.Released m) :
    ∀ t ∈ s.tasks, t.result? = some (.ok ()) := by
  intro t mem
  obtain ⟨a, counted, none⟩ := released
  obtain ⟨module, finished⟩ := (drained valid counted none).2 t mem
  exact Task.succeeded_of_finished (valid.tasks t mem) (orderly t mem) finished

end Setup

end ModuleTree
