import ModuleTree.Proofs.FileSystem.Rewritten
import ModuleTree.Proofs.Run.ScheduleIndependence
import ModuleTree.Proofs.Run.Sources
import ModuleTree.Proofs.Run.Warrant
/- Runs over files where everything is in place already: each output and the directory it stands in,
   the graph, and sources that can be compiled. Such a run makes nothing new, and nothing fails. -/
namespace ModuleTree

variable {σ : Type}

abbrev PureCompiler := Request → Except CompileError Compiled

/-- Whatever has become of the surroundings, their compiler gives these answers. -/
def Environment.CompilesBy (answer : Environment σ) (compiler : PureCompiler) : Prop :=
  ∀ request w, (answer (.compile request) w).1 = compiler request

namespace Job

structure Reads (fs : FileSystem) (job : Job) (id : NodeId) (bytes : ByteArray) (source : String) :
    Prop where
  opens : fs.openFile job.input = .ok id
  file : fs.node? id = some (.file bytes)
  text : String.fromUTF8? bytes = some source

def source? (fs : FileSystem) (job : Job) : Option String :=
  match fs.openFile job.input with
  | .error _ => none
  | .ok id =>
    match fs.node? id with
    | some (.file bytes) => String.fromUTF8? bytes
    | _ => none

def request? (fs : FileSystem) (settings : Settings) (job : Job) : Option Request :=
  (job.source? fs).map fun source => ⟨source, job.moduleName, settings⟩

def foretold (fs : FileSystem) (compiler : PureCompiler) (settings : Settings) (job : Job) :
    Option Compiled :=
  (job.request? fs settings).bind fun request => (compiler request).toOption

/-- All that a job needs is in place. -/
structure InPlace (fs : FileSystem) (compiler : PureCompiler) (settings : Settings) (job : Job) :
    Prop where
  parent : ∀ p, job.output.parent? = some p → p.isEmpty = false → fs.pathExists p
  output : ∃ id, fs.Creatable job.output id
  compiled : ∃ id bytes source module, job.Reads fs id bytes source ∧
    compiler ⟨source, job.moduleName, settings⟩ = .ok module

section Foretold

variable {fs : FileSystem} {compiler : PureCompiler} {settings : Settings} {job : Job}
  {id : NodeId} {bytes : ByteArray} {source : String} {module : Compiled}

theorem request?_of_reads (reads : job.Reads fs id bytes source) :
    job.request? fs settings = some ⟨source, job.moduleName, settings⟩ := by
  simp [request?, source?, reads.opens, reads.file, reads.text]

theorem foretold_of_compiled (reads : job.Reads fs id bytes source)
    (compiled : compiler ⟨source, job.moduleName, settings⟩ = .ok module) :
    job.foretold fs compiler settings = some module := by
  simp [foretold, request?_of_reads reads, compiled, Except.toOption]

end Foretold

end Job

/-- All that a run needs is in place, and no output is the source of a job. -/
structure Setup.InPlace (m : Setup σ) (fs : FileSystem) (compiler : PureCompiler)
    (jobs : List Job) : Prop where
  each : ∀ job ∈ jobs, job.InPlace fs compiler m.settings
  apart : ∀ job ∈ jobs, ∀ other ∈ jobs, ∀ id, fs.openFile job.input = .ok id →
    fs.resolve other.output ≠ .ok id
  destination : m.settings.graph → m.destination.isEmpty = false → fs.pathExists m.destination
  graph : m.settings.graph → ∃ id, fs.Creatable (graphPath m.destination) id

section Repeats
open FileSystem

variable {fs fs' fs'' : FileSystem} {x : Exchange} {t : Transcript} {place : Option Path}

/-- An answer no worse than these files would give. -/
def Repeats (fs : FileSystem) : Exchange → Prop
  | ⟨.pathExists p, there⟩ => fs.pathExists p → there = true
  | ⟨.openFile p, answer⟩ => ∀ id, fs.openFile p = .ok id → answer = .ok id
  | ⟨.createFile p, answer⟩ => ∀ id, fs.Creatable p id → answer = .ok id
  | ⟨.readFile id, answer⟩ => fs.isDirectoryNode id = false → ∃ bytes, answer = .ok bytes
  | ⟨.writeFile _ _, answer⟩ => answer = .ok ()
  | _ => True

theorem readNode_of_plain {id : NodeId} (plain : fs.isDirectoryNode id = false) :
    ∃ bytes, fs.readNode id = .ok bytes := by
  unfold isDirectoryNode at plain
  unfold readNode
  split
  · exact ⟨_, rfl⟩
  · rename_i node
    simp [node] at plain
  · exact ⟨_, rfl⟩

theorem repeats_of_answers (rewritten : fs.Rewritten fs') (answers : fs'.Answers x fs'')
    (excused : fs'.Excuses x) : Repeats fs x := by
  cases answers with
  | pathExists p => exact rewritten.grows.pathExists
  | unseen p =>
    intro there
    exact absurd (rewritten.grows.pathExists there) (by simp [excused.unseen p rfl])
  | openFile opened =>
    intro id opens
    cases (rewritten.grows.openFile opens).symm.trans opened
    rfl
  | notOpened p e =>
    intro id opens
    cases excused.failed (.openFile p e) _ _ (.openFile (rewritten.grows.openFile opens))
  | createFile created =>
    intro id creatable
    obtain ⟨_, again, _⟩ := createFile_again (rewritten.creatable creatable)
    cases again.symm.trans created
    rfl
  | notCreated p e =>
    intro id creatable
    obtain ⟨_, again, _⟩ := createFile_again (rewritten.creatable creatable)
    cases excused.failed (.createFile p e) _ _ (.createFile again)
  | readFile => exact fun _ => ⟨_, rfl⟩
  | notRead file e =>
    intro plain
    obtain ⟨_, read⟩ := readNode_of_plain ((rewritten.isDirectoryNode file).trans plain)
    cases excused.failed (.readFile file e) _ _ (.readFile read)
  | writeFile => rfl
  | notWritten file bytes e | spoiled _ bytes _ e =>
    cases excused.failed (.writeFile _ bytes e) _ _ (.writeFile _ bytes)
  | _ => trivial

theorem rewritten_of_answers (rewritten : fs.Rewritten fs') (answers : fs'.Answers x fs'')
    (unmade : ∀ p, x.call ≠ .makeDirectory p)
    (created : ∀ p, x.call = .createFile p → ∃ id, fs.Creatable p id) : fs.Rewritten fs'' := by
  cases answers with
  | makeDirectory => exact absurd rfl (unmade _)
  | createFile created_ =>
    obtain ⟨id, creatable⟩ := created _ rfl
    obtain ⟨_, again, after⟩ := createFile_again (rewritten.creatable creatable)
    cases again.symm.trans created_
    exact rewritten.trans after
  | writeFile file bytes => exact rewritten.trans (rewritten_writeNode fs' file bytes)
  | spoiled here _ after => exact rewritten.trans (rewritten_setFile here after)
  | _ => exact rewritten

theorem unmade_of_warranted (warranted : Warranted place t)
    (there : ∀ p, place = some p → p.isEmpty = false → fs.pathExists p)
    (repeats : ∀ x ∈ t, Repeats fs x) : ∀ x ∈ t, ∀ q, x.call ≠ .makeDirectory q := by
  intro x mem q made
  obtain ⟨p, same, nonempty, missing⟩ := warranted x mem q made
  cases repeats _ missing (there p same nonempty)

end Repeats

namespace Setup
open Run FileSystem

variable {m : Setup σ} {jobs : List Job} {start : σ} {s : Run σ} {files : σ → FileSystem}
  {compiler : PureCompiler}

theorem unmade_in_minutes {fs : FileSystem} (inPlace : m.InPlace fs compiler jobs)
    (reach : m.Reachable jobs start s) (repeats : ∀ x ∈ s.minutes, Repeats fs x) :
    ∀ x ∈ s.minutes, ∀ q, x.call ≠ .makeDirectory q := by
  refine unmade_of_warranted (warranted_minutes reach) (fun p place nonempty => ?_) repeats
  split at place
  · rename_i graph
    cases place
    exact inPlace.destination graph nonempty
  · cases place

/-- A run for which everything is in place makes nothing new, and each of its calls is answered as
these files would answer it. -/
theorem rewritten_of_reachable (houses : m.environment.Houses files)
    (willing : m.environment.Willing files) (inPlace : m.InPlace (files start) compiler jobs)
    (reach : m.Reachable jobs start s) :
    (files start).Rewritten (files s.surroundings) ∧
      (∀ record ∈ s.records, ∀ x ∈ record.2, Repeats (files start) x) ∧
      ∀ x ∈ s.minutes, Repeats (files start) x := by
  induction reach with
  | start =>
    refine ⟨rewritten_refl _, fun record mem x there => ?_, by simp [begin]⟩
    rw [records_of_begin record mem] at there
    cases there
  | @step s s' reach step ih =>
    obtain ⟨rewritten, inRecords, inMinutes⟩ := ih
    cases moves_of_step houses reach step with
    | still same records minutes =>
      rw [same, records, minutes]
      exact ⟨rewritten, inRecords, inMinutes⟩
    | @job before after job t x old new answers permits minutes _ _ excused =>
      have at_ : (job, t) ∈ s.records := by simp [old]
      have at' : (job, t ++ [x]) ∈ s'.records := by simp [new]
      have known : job ∈ jobs := by
        rw [← jobs_of_records reach]
        exact List.mem_map_of_mem (f := Prod.fst) at_
      have own : ∀ y ∈ t ++ [x], Repeats (files start) y :=
        forall_concat (inRecords (job, t) at_)
          (repeats_of_answers rewritten answers (excused willing))
      have unmade := unmade_of_warranted (warranted_of_reachable (reach.step step) _ at')
        (inPlace.each job known).parent own
      have creatable (p : Path) (created : x.call = .createFile p) :
          ∃ id, (files start).Creatable p id := by
        have grounds := permits.grounds
        rw [created] at grounds
        cases grounds
        exact (inPlace.each job known).output
      refine ⟨rewritten_of_answers rewritten answers (unmade x (by simp)) creatable, ?_,
        minutes ▸ inMinutes⟩
      rw [new]
      exact forall_replaced (old ▸ inRecords) own
    | @listener x records answers minutes grounds _ _ excused =>
      have all : ∀ y ∈ s.minutes ++ [x], Repeats (files start) y :=
        forall_concat inMinutes (repeats_of_answers rewritten answers (excused willing))
      rw [← minutes] at all
      have unmade := unmade_in_minutes inPlace (reach.step step) all x (by simp [minutes])
      refine ⟨rewritten_of_answers rewritten answers unmade fun p created => ?_,
        records ▸ inRecords, all⟩
      rw [created] at grounds
      exact grounds.2 ▸ inPlace.graph grounds.1

section Unfailing

variable (houses : m.environment.Houses files) (willing : m.environment.Willing files)
  (inPlace : m.InPlace (files start) compiler jobs) (reach : m.Reachable jobs start s)
include houses willing inPlace reach

theorem inPlace_of_mem {t : Task} (mem : t ∈ s.tasks) :
    t.job ∈ jobs ∧ t.job.InPlace (files start) compiler m.settings ∧
      (∀ x ∈ t.transcript, t.job.Grounds m.settings t.transcript x.call) ∧
        ∀ x ∈ t.transcript, Repeats (files start) x := by
  have record : (t.job, t.transcript) ∈ s.records := List.mem_map_of_mem mem
  have job : t.job ∈ jobs := (valid_of_reachable reach).jobs ▸ List.mem_map_of_mem mem
  exact ⟨job, inPlace.each t.job job, grounds_of_regular (regular_of_reachable reach _ record),
    (rewritten_of_reachable houses willing inPlace reach).2.1 _ record⟩

theorem opens_as_before {t : Task} {id file : NodeId} {bytes : ByteArray} {source : String}
    {answer : Except IoError ByteArray} (mem : t ∈ s.tasks)
    (reads : t.job.Reads (files start) id bytes source)
    (read : ⟨.readFile file, answer⟩ ∈ t.transcript) : file = id := by
  obtain ⟨_, _, grounds, repeats⟩ := inPlace_of_mem houses willing inPlace reach mem
  exact Except.ok.inj (repeats _ (grounds _ read) id reads.opens)

theorem reads_as_before {t : Task} {id file : NodeId} {bytes content : ByteArray} {source : String}
    (mem : t ∈ s.tasks) (reads : t.job.Reads (files start) id bytes source)
    (read : ⟨.readFile file, .ok content⟩ ∈ t.transcript) : content = bytes := by
  have job := (inPlace_of_mem houses willing inPlace reach mem).1
  have untaken : Untaken s id := by
    intro record there taken
    obtain ⟨u, mem', rfl⟩ := mem_records there
    obtain ⟨job', own, _, _⟩ := inPlace_of_mem houses willing inPlace reach mem'
    obtain ⟨output, creatable⟩ := own.output
    have placed := (placed_of_reachable houses reach).1 _ there _ taken
    have still := (grows_of_reachable houses reach).resolve creatable.there
    cases still.symm.trans placed
    exact inPlace.apart t.job job u.job job' id reads.opens creatable.there
  have record : (t.job, t.transcript) ∈ s.records := List.mem_map_of_mem mem
  cases opens_as_before houses willing inPlace reach mem reads read
  exact (unchanged_of_reachable houses reads.file reach untaken).read _ record content read

theorem compiles_as_before {t : Task} {id : NodeId} {bytes : ByteArray} {source : String}
    {request : Request} {answer : Except CompileError Compiled}
    (pure : m.environment.CompilesBy compiler)
    (mem : t ∈ s.tasks) (reads : t.job.Reads (files start) id bytes source)
    (asked : ⟨.compile request, answer⟩ ∈ t.transcript) :
    request = ⟨source, t.job.moduleName, m.settings⟩ ∧ answer = compiler request := by
  obtain ⟨_, _, grounds, _⟩ := inPlace_of_mem houses willing inPlace reach mem
  obtain ⟨name, settings, file, content, read, text⟩ := grounds _ asked
  constructor
  · cases reads_as_before houses willing inPlace reach mem reads read
    cases reads.text.symm.trans text
    rw [← name, ← settings]
  · rcases answered_of_reachable reach t mem _ asked with report | ⟨w, told⟩
    · cases report
    · exact told.trans (pure request w)

theorem unblamed_as_before {t : Task} (mem : t ∈ s.tasks) (e : StreamError) :
    ¬Blamed t.transcript e := by
  obtain ⟨_, own, grounds, repeats⟩ := inPlace_of_mem houses willing inPlace reach mem
  obtain ⟨id, bytes, source, _, reads, _⟩ := own.compiled
  rintro ⟨x, there, blames⟩
  cases blames with
  | directory p e =>
    have record : (t.job, t.transcript) ∈ s.records := List.mem_map_of_mem mem
    exact unmade_of_warranted (warranted_of_reachable reach _ record) own.parent repeats _ there p
      rfl
  | openInput p e =>
    cases grounds _ there
    cases repeats _ there id reads.opens
  | createOutput p e =>
    cases grounds _ there
    obtain ⟨output, creatable⟩ := own.output
    cases repeats _ there output creatable
  | readAll file p e =>
    cases opens_as_before houses willing inPlace reach mem reads there
    have plain : (files start).isDirectoryNode id = false := by
      simp [isDirectoryNode, reads.file]
    obtain ⟨_, well⟩ := repeats _ there plain
    cases well
  | notText file p content bad =>
    cases reads_as_before houses willing inPlace reach mem reads there
    cases bad.symm.trans reads.text
  | writeAll file bytes p e => cases repeats _ there

theorem meets_as_before {t : Task} (pure : m.environment.CompilesBy compiler) (mem : t ∈ s.tasks) :
    t.Meets (t.job.foretold (files start) compiler m.settings) := by
  obtain ⟨id, bytes, source, module, reads, compiled⟩ :=
    (inPlace_of_mem houses willing inPlace reach mem).2.1.compiled
  have asks {request : Request} {answer : Except CompileError Compiled}
      (asked : ⟨.compile request, answer⟩ ∈ t.transcript) : answer = .ok module := by
    obtain ⟨same, told⟩ := compiles_as_before houses willing inPlace reach pure mem reads asked
    rw [told, same, compiled]
  rw [Job.foretold_of_compiled reads compiled]
  constructor
  · intro c brought
    obtain ⟨request, there⟩ := Task.asked_of_module brought
    exact Except.ok.inj (asks there)
  · rintro e ⟨_, _, own⟩
    cases e with
    | stream e => exact unblamed_as_before houses willing inPlace reach mem e own
    | compile endpoint e =>
      obtain ⟨_, request, asked⟩ := own
      cases asks asked
    | _ => exact own

theorem not_flushFailed (graph : m.settings.graph) (e : GraphError) :
    ¬FlushFailed m.destination s.minutes e := by
  have repeats := (rewritten_of_reachable houses willing inPlace reach).2.2
  have grounded := (minuted_of_reachable reach).minutes
  obtain ⟨id, creatable⟩ := inPlace.graph graph
  have creates {e : IoError} : ⟨.createFile (graphPath m.destination), .error e⟩ ∉ s.minutes := by
    intro there
    cases repeats _ there id creatable
  have writes {file : NodeId} {bytes : ByteArray} {e : IoError} :
      ⟨.writeFile file bytes, .error e⟩ ∉ s.minutes := by
    intro there
    cases repeats _ there
  rintro ⟨_, ⟨above, _, x, there, blames⟩ | ⟨error, _, there | ⟨file, bytes, there⟩⟩⟩
  · cases blames with
    | directory p e => exact unmade_in_minutes inPlace reach repeats _ there p rfl
    | openInput | readAll | notText => exact grounded _ there
    | createOutput p e =>
      cases (grounded _ there).2
      exact creates there
    | writeAll => exact writes there
  · exact creates there
  · exact writes there

end Unfailing

theorem meets_of_tasks {foretold : Job → Option Compiled} (valid : s.Valid m jobs)
    (tasks : ∀ t ∈ s.tasks, t.Meets (foretold t.job))
    (wrote : m.settings.graph → s.flushes = 1 → s.WroteGraph m) :
    s.Meets m ⟨jobs.map foretold, true⟩ := by
  refine ⟨?_, fun graph flushes => ⟨fun _ => rfl, fun _ => wrote graph flushes⟩⟩
  rw [← valid.jobs, List.map_map, List.forall₂_map_right_iff, List.forall₂_same]
  exact tasks

theorem meets_of_inPlace {r : Except RunError Summary} (houses : m.environment.Houses files)
    (willing : m.environment.Willing files) (pure : m.environment.CompilesBy compiler)
    (inPlace : m.InPlace (files start) compiler jobs) (reach : m.Reachable jobs start s)
    (returned : s.result? = some r) :
    s.Meets m ⟨jobs.map (Job.foretold (files start) compiler m.settings), true⟩ := by
  have valid := valid_of_reachable reach
  refine meets_of_tasks valid (fun t => meets_as_before houses willing inPlace reach pure) ?_
  intro graph flushes
  cases r with
  | ok summary => exact wroteGraph_of_ok valid graph returned
  | error e =>
    rcases Run.ends_in_error valid returned with ⟨_, broke⟩ | ⟨_, _, quiet⟩
    · rcases broke with ⟨_, quiet⟩ | ⟨_, ⟨fault, _, failed⟩, _⟩
      · cases flushes.symm.trans quiet.1
      · exact absurd failed (not_flushFailed houses willing inPlace reach graph fault)
    · cases flushes.symm.trans quiet.1

end Setup

end ModuleTree
