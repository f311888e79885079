import ModuleTree.Proofs.Procedure
import ModuleTree.Run.Job
/- The course of a job. Whatever is answered, a job compiles one module, reports its node,
   writes its code and reports that it has finished, in this order, and where it stops early
   a call has failed or nobody heard a report. -/
namespace ModuleTree

inductive Stage where
  | begun
  | compiled (module : Compiled)
  | recorded (module : Compiled)
  | written (module : Compiled)
  | finished (module : Compiled)

/-- All that went into files is these bytes, in a file created at this path. -/
def Wrote (t : Transcript) (p : Path) (bytes : ByteArray) : Prop :=
  ∃ file, ⟨.createFile p, .ok file⟩ ∈ t ∧ t.filterMap Exchange.written? = [(file, bytes)]

def nodeReports (settings : Settings) (job : Job) (compiled : Compiled) : List Event :=
  if settings.graph then [.compiled job.nodeName compiled.dependencies] else []

namespace Stage

def modules : Stage → List Compiled
  | begun => []
  | compiled module | recorded module | written module | finished module => [module]

def reports (settings : Settings) (job : Job) : Stage → List Event
  | begun | compiled _ => []
  | recorded module | written module => nodeReports settings job module
  | finished module => nodeReports settings job module ++ [.finished job.output]

def Writes (job : Job) (t : Transcript) : Stage → Prop
  | begun | compiled _ | recorded _ => t.filterMap Exchange.written? = []
  | written module | finished module => Wrote t job.output module.code.toUTF8

def isFinished : Stage → Bool
  | finished _ => true
  | _ => false

structure Fits (settings : Settings) (job : Job) (stage : Stage) (t : Transcript) : Prop where
  modules : t.filterMap Exchange.module? = stage.modules
  reports : t.filterMap Exchange.heard? = stage.reports settings job
  writes : stage.Writes job t

end Stage

structure Exchange.Silent (x : Exchange) : Prop where
  module : x.module? = none
  written : x.written? = none
  heard : x.heard? = none

def Heard (t : Transcript) : Prop := ∀ x ∈ t, x.isUnheard = false

theorem heard_concat {t : Transcript} {x : Exchange} (h : Heard t) (y : x.isUnheard = false) :
    Heard (t ++ [x]) :=
  forall_concat h y

theorem silent_of_plain {x : Exchange} (h : x.call.isPlain) :
    x.Silent ∧ x.isUnheard = false := by
  obtain ⟨call, answer⟩ := x
  cases call <;> first | exact ⟨⟨rfl, rfl, rfl⟩, rfl⟩ | simp [Call.isPlain] at h

theorem wrote_concat {t : Transcript} {x : Exchange} {p : Path} {bytes : ByteArray}
    (h : Wrote t p bytes) (y : x.written? = none) : Wrote (t ++ [x]) p bytes := by
  obtain ⟨file, created, written⟩ := h
  exact ⟨file, List.mem_append_left _ created, by simp [written, y]⟩

namespace Stage

variable {settings : Settings} {job : Job} {t : Transcript} {module : Compiled}

theorem begun_fits_nil (settings : Settings) (job : Job) : begun.Fits settings job [] :=
  ⟨rfl, rfl, rfl⟩

theorem writes_concat {stage : Stage} {x : Exchange} (h : stage.Writes job t)
    (y : x.written? = none) : stage.Writes job (t ++ [x]) := by
  cases stage with
  | begun | compiled | recorded =>
    change List.filterMap _ _ = _ at h ⊢
    simp [h, y]
  | written | finished => exact wrote_concat h y

theorem fits_silent {stage : Stage} {x : Exchange} (h : stage.Fits settings job t)
    (y : x.Silent) : stage.Fits settings job (t ++ [x]) where
  modules := by simp [h.modules, y.module]
  reports := by simp [h.reports, y.heard]
  writes := writes_concat h.writes y.written

theorem fits_compiled (request : Request) (module : Compiled) (h : begun.Fits settings job t) :
    (compiled module).Fits settings job (t ++ [⟨.compile request, .ok module⟩]) where
  modules := by simp [h.modules, modules, Exchange.module?]
  reports := by simp [h.reports, reports, Exchange.heard?]
  writes := writes_concat h.writes rfl

theorem fits_recorded (graph : settings.graph) (h : (compiled module).Fits settings job t) :
    (recorded module).Fits settings job
      (t ++ [⟨.report (.compiled job.nodeName module.dependencies), true⟩]) where
  modules := by simp [h.modules, modules, Exchange.module?]
  reports := by simp [h.reports, reports, Exchange.heard?, nodeReports, graph]
  writes := writes_concat h.writes rfl

theorem fits_unrecorded (graph : ¬settings.graph) (h : (compiled module).Fits settings job t) :
    (recorded module).Fits settings job t where
  modules := h.modules
  reports := by simp [h.reports, reports, nodeReports, graph]
  writes := h.writes

theorem fits_written {file : NodeId} (h : (recorded module).Fits settings job t)
    (created : ⟨.createFile job.output, .ok file⟩ ∈ t) :
    (written module).Fits settings job
      (t ++ [⟨.writeFile file module.code.toUTF8, .ok ()⟩]) where
  modules := by simp [h.modules, modules, Exchange.module?]
  reports := by simp [h.reports, reports, Exchange.heard?]
  writes := by
    have nothing : t.filterMap Exchange.written? = [] := h.writes
    exact ⟨file, List.mem_append_left _ created, by simp [nothing, Exchange.written?]⟩

theorem fits_finished (h : (written module).Fits settings job t) :
    (finished module).Fits settings job (t ++ [⟨.report (.finished job.output), true⟩]) where
  modules := by simp [h.modules, modules, Exchange.module?]
  reports := by simp [h.reports, reports, Exchange.heard?]
  writes := wrote_concat h.writes rfl

end Stage

def OwnFailure (job : Job) (t : Transcript) : RunError → Prop
  | .stream e => Blamed t e
  | .compile endpoint e =>
    endpoint = .file job.input ∧ ∃ request, ⟨.compile request, .error e⟩ ∈ t
  | _ => False

/-- A job that stops early: for a failure of its own, or because nobody heard a report. -/
def StopsEarly (settings : Settings) (job : Job) (t : Transcript) (e : RunError) : Prop :=
  (∃ stage : Stage, stage.Fits settings job t ∧ stage.isFinished = false) ∧
    (Heard t ∧ OwnFailure job t e ∨ ¬Heard t ∧ e = .aggregator)

def JobEnds (settings : Settings) (job : Job) (t : Transcript) : Except RunError Unit → Prop
  | .ok () => (∃ module, (Stage.finished module).Fits settings job t) ∧ Heard t
  | .error e => StopsEarly settings job t e

def Lawful (settings : Settings) (job : Job) (t : Transcript) : Prop :=
  ∃ stage : Stage, stage.Fits settings job t

section Course
open Procedure Stage

variable (settings : Settings) (job : Job)

structure Stands (stage : Stage) (t : Transcript) : Prop where
  fits : stage.Fits settings job t
  heard : Heard t

variable {settings job} {t : Transcript} {stage : Stage} {module : Compiled}

theorem Stands.silent {x : Exchange} (h : Stands settings job stage t) (y : x.Silent)
    (z : x.isUnheard = false) : Stands settings job stage (t ++ [x]) :=
  ⟨fits_silent h.fits y, heard_concat h.heard z⟩

theorem Stands.plain (t : Transcript) (x : Exchange) (h : Stands settings job stage t)
    (y : x.call.isPlain) : Stands settings job stage (t ++ [x]) :=
  h.silent (silent_of_plain y).1 (silent_of_plain y).2

theorem Stands.lawful (h : Stands settings job stage t) : Lawful settings job t :=
  ⟨stage, h.fits⟩

theorem Stands.fails {e : RunError} (h : Stands settings job stage t)
    (early : stage.isFinished = false) (own : OwnFailure job t e) :
    StopsEarly settings job t e :=
  ⟨⟨stage, h.fits, early⟩, .inl ⟨h.heard, own⟩⟩

theorem Stands.failsOn {e : StreamError} {x : Exchange} (h : Stands settings job stage t)
    (early : stage.isFinished = false) (y : x.Silent) (z : x.isUnheard = false)
    (blame : Blames x e) : StopsEarly settings job (t ++ [x]) (.stream e) :=
  (h.silent y z).fails early ⟨x, by simp, blame⟩

/-- What a part of a job comes to: it stands where it should, or the job stops. -/
def Comes {α : Type} (settings : Settings) (job : Job) (good : Transcript → α → Prop)
    (t : Transcript) : Except RunError α → Prop
  | .error e => StopsEarly settings job t e
  | .ok a => good t a

theorem report_keeps {event : Event} {stage' : Stage} (h : Stands settings job stage t)
    (early : stage.isFinished = false)
    (moved : stage'.Fits settings job (t ++ [⟨.report event, true⟩])) :
    Keeps (Lawful settings job) (Comes settings job fun t _ => Stands settings job stage' t) t
      (report event) := by
  refine keeps_bind (keeps_call fun answer => ?_)
  cases answer with
  | true => exact ⟨⟨stage', moved⟩, moved, heard_concat h.heard rfl⟩
  | false =>
    have still := fits_silent (x := ⟨.report event, false⟩) h.fits ⟨rfl, rfl, rfl⟩
    refine ⟨⟨stage, still⟩, ⟨stage, still, early⟩, .inr ⟨?_, rfl⟩⟩
    -- The report itself is one that nobody heard.
    intro all
    simpa [Exchange.isUnheard] using all ⟨.report event, false⟩ (by simp)

theorem ensureParent_keeps (h : Stands settings job stage t) (output : Path) :
    Keeps (Stands settings job stage) (Made (Stands settings job stage)) t
      (ensureParent output) := by
  unfold ensureParent
  split
  · exact ⟨h, by simp⟩
  · exact ensureDirectory_keeps Stands.plain h _

def Opened (settings : Settings) (job : Job) (t : Transcript) :
    Except StreamError (NodeId × NodeId) → Prop
  | .error e => StopsEarly settings job t (.stream e)
  | .ok (_, output) => Stands settings job .begun t ∧ ⟨.createFile job.output, .ok output⟩ ∈ t

theorem openFiles_keeps (h : Stands settings job .begun t) :
    Keeps (Lawful settings job) (Opened settings job) t (openFiles job) := by
  refine keeps_bind_of (keeps_mono (ensureParent_keeps h job.output)
    (fun _ => Stands.lawful) fun _ _ => id) fun t outcome _ made => ?_
  cases outcome with
  | error e => exact made.1.fails rfl (made.2 e rfl)
  | ok _ =>
    refine keeps_bind (keeps_call fun input => ?_)
    have opened := made.1.silent (x := ⟨.openFile job.input, input⟩) ⟨rfl, rfl, rfl⟩ rfl
    refine ⟨opened.lawful, ?_⟩
    cases input with
    | error e => exact made.1.failsOn rfl ⟨rfl, rfl, rfl⟩ rfl (.openInput job.input e)
    | ok input =>
      refine keeps_bind (keeps_call fun output => ?_)
      have created :=
        opened.silent (x := ⟨.createFile job.output, output⟩) ⟨rfl, rfl, rfl⟩ rfl
      refine ⟨created.lawful, ?_⟩
      cases output with
      | error e => exact opened.failsOn rfl ⟨rfl, rfl, rfl⟩ rfl (.createOutput job.output e)
      | ok output => exact ⟨created, by simp⟩

theorem readSource_keeps {input output : NodeId} (h : Stands settings job .begun t) :
    Keeps (Lawful settings job) (Comes settings job fun t _ => Stands settings job .begun t) t
      (readSource (fileCalls input output) (.file job.input)) := by
  refine keeps_bind (keeps_call fun answer => ?_)
  have read := h.silent (x := ⟨.readFile input, answer⟩) ⟨rfl, rfl, rfl⟩ rfl
  refine ⟨read.lawful, ?_⟩
  cases answer with
  | error e => exact h.failsOn rfl ⟨rfl, rfl, rfl⟩ rfl (.readAll input job.input e)
  | ok bytes =>
    dsimp only
    split
    · rename_i bad
      exact h.failsOn rfl ⟨rfl, rfl, rfl⟩ rfl (.notText input job.input bytes bad)
    · refine keeps_bind (keeps_call fun answer => ?_)
      have noted := Stands.plain _ ⟨.note _, answer⟩ read rfl
      exact ⟨noted.lawful, noted⟩

theorem reportCompiled_keeps (h : Stands settings job (.compiled module) t) :
    Keeps (Lawful settings job)
      (Comes settings job fun t _ => Stands settings job (.recorded module) t) t
      (reportCompiled job settings module) := by
  unfold reportCompiled
  split
  · rename_i graph
    exact report_keeps h rfl (fits_recorded graph h.fits)
  · rename_i plain
    exact ⟨fits_unrecorded plain h.fits, h.heard⟩

theorem writeAll_keeps (input : NodeId) {output : NodeId}
    (h : Stands settings job (.recorded module) t)
    (created : ⟨.createFile job.output, .ok output⟩ ∈ t) :
    Keeps (Lawful settings job)
      (Comes settings job fun t same =>
        same = module ∧ Stands settings job (.written module) t) t (do
        match ← (fileCalls input output).writeAll module.code.toUTF8 with
        | .error e => return .error (.stream ⟨.file job.output, .writeAll, e⟩)
        | .ok () => return .ok module) := by
  refine keeps_bind (keeps_call fun answer => ?_)
  cases answer with
  | error e =>
    have silent := fits_silent (x := ⟨.writeFile output module.code.toUTF8, .error e⟩) h.fits
      ⟨rfl, rfl, rfl⟩
    exact ⟨⟨_, silent⟩, h.failsOn rfl ⟨rfl, rfl, rfl⟩ rfl (.writeAll output _ job.output e)⟩
  | ok _ =>
    have written := fits_written h.fits created
    exact ⟨⟨_, written⟩, rfl, written, heard_concat h.heard rfl⟩

theorem compileStream_keeps {input output : NodeId} (h : Stands settings job .begun t)
    (created : ⟨.createFile job.output, .ok output⟩ ∈ t) :
    Keeps (Lawful settings job)
      (Comes settings job fun t module => Stands settings job (.written module) t) t
      (compileStream (fileCalls input output) (.file job.input) (.file job.output)
        job.moduleName settings (reportCompiled job settings)) := by
  refine keeps_bind_of (readSource_keeps h) fun t₁ source before read => ?_
  cases source with
  | error e => exact read
  | ok source =>
    refine keeps_bind (keeps_call fun answer => ?_)
    cases answer with
    | error e =>
      have still := read.silent (x := ⟨.compile ⟨source, job.moduleName, settings⟩, .error e⟩)
        ⟨rfl, rfl, rfl⟩ rfl
      exact ⟨still.lawful, still.fails rfl ⟨rfl, ⟨source, job.moduleName, settings⟩, by simp⟩⟩
    | ok module =>
      have compiled := fits_compiled ⟨source, job.moduleName, settings⟩ module read.fits
      refine ⟨⟨_, compiled⟩, ?_⟩
      refine keeps_bind_of (reportCompiled_keeps ⟨compiled, heard_concat read.heard rfl⟩)
        fun t₂ verdict further recorded => ?_
      cases verdict with
      | error e => exact recorded
      | ok _ =>
        -- The output was created long ago, and nothing of the transcript is lost since.
        have still : ⟨.createFile job.output, .ok output⟩ ∈ t₂ :=
          further.subset (List.mem_append_left _ (before.subset created))
        refine keeps_mono (writeAll_keeps input recorded still) (fun _ => id) ?_
        intro t₃ outcome ends
        cases outcome with
        | error e => exact ends
        | ok same =>
          rw [Comes, ends.1]
          exact ends.2

theorem compileFile_keeps (settings : Settings) (job : Job) :
    Keeps (Lawful settings job) (JobEnds settings job) [] (compileFile settings job) := by
  have start : Stands settings job .begun [] := ⟨begun_fits_nil settings job, by simp [Heard]⟩
  refine keeps_bind (keeps_call fun answer => ?_)
  have noted := Stands.plain _ ⟨.note _, answer⟩ start rfl
  refine ⟨noted.lawful, keeps_bind_of (openFiles_keeps noted) fun t₁ outcome _ opened => ?_⟩
  cases outcome with
  | error e => exact opened
  | ok files =>
    refine keeps_bind_of (compileStream_keeps opened.1 opened.2) fun t₂ outcome _ ends => ?_
    cases outcome with
    | error e => exact ends
    | ok module =>
      refine keeps_mono (report_keeps ends rfl (fits_finished ends.fits)) (fun _ => id) ?_
      intro t₃ outcome ends
      cases outcome with
      | error e => exact ends
      | ok _ => exact ⟨⟨module, ends.fits⟩, ends.heard⟩

def Job.May (job : Job) : Call → Prop
  | .openFile p => p = job.input
  | .createFile p => p = job.output
  | _ => True

theorem may_of_plain (job : Job) (c : Call) (plain : c.isPlain) : job.May c := by
  cases c <;> trivial

theorem openFiles_asks (job : Job) : (openFiles job).Asks job.May := by
  have parent : (ensureParent job.output).Asks job.May := by
    unfold ensureParent
    split
    · trivial
    · exact ensureDirectory_asks (may_of_plain job) _
  refine asks_bind parent fun outcome => ?_
  cases outcome with
  | error e => trivial
  | ok _ =>
    refine asks_bind (asks_call rfl) fun input => ?_
    cases input with
    | error e => trivial
    | ok input =>
      refine asks_bind (asks_call rfl) fun output => ?_
      cases output <;> trivial

section Inner

def Call.isInner : Call → Bool
  | .readFile _ | .writeFile _ _ | .compile _ | .report _ | .note _ => true
  | _ => false

variable {allowed : Call → Prop} (inner : ∀ c, c.isInner → allowed c)
include inner

theorem report_asks (event : Event) : (report event).Asks allowed := by
  refine asks_bind (asks_call (inner _ rfl)) fun heard => ?_
  cases heard <;> trivial

theorem compileStream_asks (settings : Settings) (job : Job) (input output : NodeId) :
    (compileStream (fileCalls input output) (.file job.input) (.file job.output)
      job.moduleName settings (reportCompiled job settings)).Asks allowed := by
  have read : (readSource (fileCalls input output) (.file job.input)).Asks allowed := by
    refine asks_bind (asks_call (inner _ rfl)) fun answer => ?_
    cases answer with
    | error e => trivial
    | ok bytes =>
      dsimp only
      split
      · trivial
      · exact asks_bind (asks_call (inner _ rfl)) fun _ => trivial
  have recorded (module : Compiled) : (reportCompiled job settings module).Asks allowed := by
    unfold reportCompiled
    split
    · exact report_asks inner _
    · trivial
  refine asks_bind read fun source => ?_
  cases source with
  | error e => trivial
  | ok source =>
    refine asks_bind (asks_call (inner _ rfl)) fun answer => ?_
    cases answer with
    | error e => trivial
    | ok module =>
      refine asks_bind (recorded module) fun verdict => ?_
      cases verdict with
      | error e => trivial
      | ok _ =>
        refine asks_bind (asks_call (inner _ rfl)) fun answer => ?_
        cases answer <;> trivial

end Inner

theorem may_of_inner (job : Job) (c : Call) (inner : c.isInner) : job.May c := by
  cases c <;> trivial

theorem compileFile_asks (settings : Settings) (job : Job) :
    (compileFile settings job).Asks job.May := by
  refine asks_bind (asks_call trivial) fun _ => asks_bind (openFiles_asks job) fun outcome => ?_
  cases outcome with
  | error e => trivial
  | ok files =>
    refine asks_bind (compileStream_asks (may_of_inner job) settings job files.1 files.2)
      fun outcome => ?_
    cases outcome with
    | error e => trivial
    | ok module => exact report_asks (may_of_inner job) _

end Course

end ModuleTree
