import ModuleTree.Proofs.FileSystem.Destination
import ModuleTree.Proofs.Run.Files
import ModuleTree.Proofs.Walk.Discovered
/- The outputs of a run. Each lies below the destination under names of its own, so no job and
   no graph reaches the file of another job, and what a job has written stays as it is. -/
namespace ModuleTree

variable {σ : Type}

theorem isName_fileName : Path.IsName Accumulator.fileName := by
  constructor <;> decide

theorem lies_graphPath (destination : Path) : destination.Lies (graphPath destination) := by
  have valid := isName_fileName
  refine ⟨Path.isAbsolute_child valid, [Accumulator.fileName], by simp, by simpa using valid, ?_⟩
  exact Path.segmentNames_child valid

section Sited

variable {fs : FileSystem} {destination : Path} {job : Job}

theorem Job.Sited.lies (sited : job.Sited fs destination) : destination.Lies job.output := by
  obtain ⟨names, further, valid, whole⟩ := sited.output
  refine ⟨sited.isAbsolute, names, further, valid, ?_⟩
  rw [whole, Path.segmentNames_append (Path.isAbsolute_join valid), Path.segmentNames_join valid]

theorem Job.Sited.eq_graphPath (sited : job.Sited fs destination)
    (same : job.output.segmentNames = (graphPath destination).segmentNames) :
    job.output = graphPath destination := by
  obtain ⟨names, further, valid, whole⟩ := sited.output
  rw [whole, Path.segmentNames_append (Path.isAbsolute_join valid),
    Path.segmentNames_join valid, graphPath, Path.segmentNames_child isName_fileName,
    List.append_cancel_left_eq] at same
  rw [whole, same]
  rfl

end Sited

def deposit (t : Transcript) : ByteArray :=
  ((t.filterMap Exchange.written?).getLast?.map Prod.snd).getD .empty

def Untried (t : Transcript) : Prop :=
  ∀ file bytes answer, ⟨.writeFile file bytes, answer⟩ ∉ t

def Unspoiled (t : Transcript) : Prop :=
  ∀ file bytes e, ⟨.writeFile file bytes, .error e⟩ ∉ t

/-- A file that was created at this path holds what was written last, unless a write has failed. -/
def Holds (fs : FileSystem) (p : Path) (t : Transcript) : Prop :=
  ∀ id, ⟨.createFile p, .ok id⟩ ∈ t → Unspoiled t → fs.node? id = some (.file (deposit t))

section Calls
open FileSystem

variable {fs fs' : FileSystem} {destination p q : Path} {t : Transcript} {x : Exchange}

theorem puts_of_grounds {settings : Settings} {job : Job} (lies : destination.Lies job.output)
    (grounds : job.Grounds settings t x.call) (placed : ∀ y ∈ t, Setup.Placed fs y)
    (answers : fs.Answers x fs') : fs.Puts destination (· = job.output) fs' := by
  cases answers with
  | @makeDirectory p fs' made =>
    obtain ⟨parent, up, mem, _⟩ := grounds
    obtain ⟨last, further, whole⟩ := Path.shorter_of_parent? up
    have chain := Path.onTheWay_of_mem_chain mem
    have way := chain.trans (Path.onTheWay_of_parent? up)
    have absolute := way.absolute.trans lies.absolute
    obtain ⟨rest, front⟩ := chain.names
    obtain ⟨names, _, _, below⟩ := lies.names
    have near : p.segmentNames <+: destination.segmentNames ++ names := below ▸ way.names
    rcases List.prefix_or_prefix_of_prefix near (List.prefix_append destination.segmentNames names)
      with before | ⟨more, behind⟩
    · exact .way ⟨p, ⟨absolute, before⟩, made⟩
    · by_cases done : more = []
      · have before : p.segmentNames <+: destination.segmentNames := by simp [← behind, done]
        exact .way ⟨p, ⟨absolute, before⟩, made⟩
      · have above : job.output.segmentNames = p.segmentNames ++ (rest ++ last) := by
          rw [whole, ← front, List.append_assoc]
        have further : rest ++ last ≠ [] := by simp [further]
        exact .between rfl absolute done further behind.symm above made
  | createFile created =>
    have output : _ = job.output := grounds
    subst output
    exact .file rfl created
  | writeFile file bytes =>
    refine puts_writeNode ?_ (placed _ grounds.1) bytes
    rfl
  | spoiled here bytes after e =>
    refine .content ?_ (placed _ grounds.1) here after
    rfl
  | _ => exact .still

theorem puts_of_flushGrounds {settings : Settings}
    (grounds : FlushGrounds settings destination t x.call) (placed : ∀ y ∈ t, Setup.Placed fs y)
    (answers : fs.Answers x fs') :
    fs.Puts destination (fun site => settings.graph ∧ site = graphPath destination) fs' := by
  cases answers with
  | @makeDirectory p fs' made => exact .way ⟨p, Path.onTheWay_of_mem_chain grounds, made⟩
  | createFile created => exact .file grounds created
  | writeFile file bytes =>
    exact puts_writeNode ⟨grounds.1, rfl⟩ (placed _ grounds.2) bytes
  | spoiled here bytes after e => exact .content ⟨grounds.1, rfl⟩ (placed _ grounds.2) here after
  | _ => exact .still

theorem deposit_unwritten (unwritten : x.written? = none) : deposit (t ++ [x]) = deposit t := by
  simp [deposit, unwritten]

theorem untried_of_early (early : ∀ y ∈ t, y.call.rank < 6) : Untried t :=
  fun _ _ _ mem => absurd (early _ mem) (by decide : ¬6 < 6)

theorem deposit_of_untried (untried : Untried t) : deposit t = .empty := by
  have none : t.filterMap Exchange.written? = [] := by
    apply List.filterMap_eq_nil_iff.mpr
    intro ⟨call, answer⟩ mem
    cases call with
    | writeFile file bytes => exact absurd mem (untried file bytes answer)
    | _ => rfl
  simp [deposit, none]

theorem unspoiled_of_untried (untried : Untried t) : Unspoiled t :=
  fun file bytes e => untried file bytes (.error e)

theorem unspoiled_front (unspoiled : Unspoiled (t ++ [x])) : Unspoiled t :=
  fun file bytes e mem => unspoiled file bytes e (List.mem_append_left [x] mem)

theorem node?_of_createFile (ready : fs.Ready destination) (lies : destination.Lies p)
    {id : NodeId} (created : fs.createFile p = .ok (id, fs')) :
    fs'.node? id = some (.file .empty) := by
  rcases node_of_createFile created with empty | ⟨same, plain, other⟩
  · exact empty
  · have leads := leadsTo_of_createFile created
    subst same
    rcases file_or_directory_of_lies ready.receives lies leads with directory | ⟨content, file⟩
    · rw [plain] at directory
      cases directory
    · exact absurd file (other content)

theorem holds_own {settings : Settings} {job : Job} (ready : fs.Ready destination)
    (lies : destination.Lies job.output) (regular : Regular settings job t)
    (permits : job.Permits settings t x.call) (answers : fs.Answers x fs')
    (holds : Holds fs job.output t) : Holds fs' job.output (t ++ [x]) := by
  intro id mem unspoiled
  have kept := fun content => @file_kept fs fs' id x content answers
  cases answers with
  | @createFile p other fs' created =>
    have same : p = job.output := permits.grounds
    subst same
    have early : ∀ y ∈ t, y.call.rank < 2 := permits.turn (by decide : 0 < 2)
    have untried : Untried t := untried_of_early fun y mem => Nat.lt_trans (early y mem) (by decide)
    rw [deposit_unwritten rfl, deposit_of_untried untried]
    rcases List.mem_append.mp mem with past | last
    · exact absurd (early _ past) (by decide : ¬2 < 2)
    · cases List.mem_singleton.mp last
      exact node?_of_createFile ready lies created
  | writeFile file bytes =>
    have untried : Untried t := untried_of_early (permits.turn (by decide : 0 < 6))
    have there : ⟨.createFile job.output, .ok id⟩ ∈ t := mem_front mem (by simp)
    cases eq_of_rank regular permits.grounds.1 there (by decide : 0 < 2) rfl
    have before := holds id there (unspoiled_of_untried untried)
    rw [deposit_of_untried untried] at before
    have deposited : deposit (t ++ [⟨.writeFile id bytes, .ok ()⟩]) = bytes := by
      simp [deposit, Exchange.written?]
    rw [deposited, writeNode_of_empty before, node?_setNode, if_pos ⟨rfl, lt_size_of_node? before⟩]
  | notWritten _ bytes e | spoiled _ bytes _ e =>
    exact absurd (List.mem_append_right _ List.mem_cons_self) (unspoiled _ bytes e)
  | _ =>
    have there : ⟨.createFile job.output, .ok id⟩ ∈ t := mem_front mem (by simp)
    rw [deposit_unwritten rfl]
    refine kept _ (holds id there (unspoiled_front unspoiled)) ?_ ?_
    · intro p other same
      cases same
    · intro file bytes same
      cases same

def Call.touches : Call → Bool
  | .createFile _ | .writeFile _ _ => true
  | _ => false

theorem holds_beside (ready' : fs'.Ready destination) (lies : destination.Lies p)
    (lies' : destination.Lies q) (differ : x.call.touches → p.segmentNames ≠ q.segmentNames)
    (answers : fs.Answers x fs') (created : ∀ r, x.call = .createFile r → r = q)
    (written : ∀ file bytes, x.call = .writeFile file bytes → fs.resolve q = .ok file)
    (placed : ∀ id, ⟨.createFile p, .ok id⟩ ∈ t → fs.resolve p = .ok id) (holds : Holds fs p t) :
    Holds fs' p t := by
  intro id mem unspoiled
  have here := leadsTo_of_resolve (answers.grows.resolve (placed id mem))
  refine file_kept answers (holds id mem unspoiled) ?_ ?_
  · intro r other same there
    subst same there
    cases created r rfl
    cases answers with
    | createFile outcome =>
      have same := segmentNames_unique ready' lies lies' here (leadsTo_of_createFile outcome)
      exact differ rfl same
  · intro file bytes same there
    subst there
    have elsewhere := leadsTo_of_resolve (answers.grows.resolve (written file bytes same))
    exact differ (by rw [same]; rfl) (segmentNames_unique ready' lies lies' here elsewhere)

end Calls

namespace Setup
open Run FileSystem

variable {m : Setup σ} {jobs : List Job} {start : σ} {s s' : Run σ} {files : σ → FileSystem}

structure Spread (destination : Path) (jobs : List Job) : Prop where
  lies : ∀ job ∈ jobs, destination.Lies job.output
  apart : jobs.Pairwise fun a b => a.output.segmentNames ≠ b.output.segmentNames

/-- The graph has not come where this job writes, and will not. -/
def Spared (m : Setup σ) (s : Run σ) (job : Job) : Prop :=
  s.flushes = 0 ∨ m.settings.graph = false ∨
    job.output.segmentNames ≠ (graphPath m.destination).segmentNames

/-- The destination is in order, and every output that the graph does not replace holds what its
job has written. -/
structure Stored (m : Setup σ) (files : σ → FileSystem) (s : Run σ) : Prop where
  ready : (files s.surroundings).Ready m.destination
  holds : ∀ record ∈ s.records, m.Spared s record.1 →
    Holds (files s.surroundings) record.1.output record.2

theorem jobs_of_records (reach : m.Reachable jobs start s) : s.records.map Prod.fst = jobs := by
  rw [← (valid_of_reachable reach).jobs, records, List.map_map]
  rfl

theorem lies_of_record (spread : Spread m.destination jobs) (reach : m.Reachable jobs start s)
    {record : Job × Transcript} (mem : record ∈ s.records) :
    m.destination.Lies record.1.output := by
  have job : record.1 ∈ s.records.map Prod.fst := List.mem_map_of_mem mem
  rw [jobs_of_records reach] at job
  exact spread.lies record.1 job

def Sites (m : Setup σ) (s : Run σ) (site : Path) : Prop :=
  (∃ record ∈ s.records, record.2 ≠ [] ∧ site = record.1.output) ∨
    s.flushes ≠ 0 ∧ m.settings.graph ∧ site = graphPath m.destination

theorem lies_of_sites (spread : Spread m.destination jobs) (reach : m.Reachable jobs start s)
    {site : Path} (begun : m.Sites s site) : m.destination.Lies site := by
  rcases begun with ⟨record, mem, _, same⟩ | ⟨_, _, same⟩
  · exact same ▸ lies_of_record spread reach mem
  · exact same ▸ lies_graphPath m.destination

theorem sites_of_step (houses : m.environment.Houses files) (reach : m.Reachable jobs start s)
    (step : m.Step s s') {site : Path} (begun : m.Sites s site) : m.Sites s' site := by
  cases moves_of_step houses reach step with
  | still _ records _ later =>
    rcases begun with ⟨record, mem, here⟩ | ⟨flushes, graph⟩
    · exact .inl ⟨record, records ▸ mem, here⟩
    · exact .inr ⟨by omega, graph⟩
  | @job before after job t x old new _ _ _ unbegun =>
    rcases begun with ⟨record, mem, some, here⟩ | ⟨flushes, _⟩
    · left
      rw [old] at mem
      rcases List.mem_append.mp mem with early | late
      · exact ⟨record, by simp [new, early], some, here⟩
      · rcases List.mem_cons.mp late with same | late
        · subst same
          exact ⟨(job, t ++ [x]), by simp [new], by simp, here⟩
        · exact ⟨record, by simp [new, late], some, here⟩
    · exact absurd unbegun flushes
  | listener records _ _ _ begun_ =>
    rcases begun with ⟨record, mem, here⟩ | ⟨flushes, graph⟩
    · exact .inl ⟨record, records ▸ mem, here⟩
    · exact .inr ⟨begun_ ▸ flushes, graph⟩

theorem puts_of_step (houses : m.environment.Houses files) (spread : Spread m.destination jobs)
    (reach : m.Reachable jobs start s) (step : m.Step s s') :
    (files s.surroundings).Puts m.destination (m.Sites s') (files s'.surroundings) := by
  have placed := placed_of_reachable houses reach
  cases moves_of_step houses reach step with
  | still same =>
    rw [same]
    exact .still
  | @job before after job t x old new answers permits =>
    have at_ : (job, t) ∈ s.records := by simp [old]
    have puts := puts_of_grounds (lies_of_record spread reach at_) permits.grounds
      (placed.1 (job, t) at_) answers
    refine puts.mono fun site same => .inl ⟨(job, t ++ [x]), ?_, by simp, same⟩
    simp [new]
  | @listener x _ answers _ grounds begun late =>
    by_cases unbegun : s.flushes = 0
    · obtain ⟨notice, note⟩ := late unbegun
      obtain ⟨call, answer⟩ := x
      cases note
      generalize files s'.surroundings = after at answers
      cases answers
      exact .still
    · refine (puts_of_flushGrounds grounds placed.2 answers).mono fun site here => .inr ?_
      exact ⟨begun ▸ unbegun, here⟩

theorem step_ready (houses : m.environment.Houses files) (spread : Spread m.destination jobs)
    (reach : m.Reachable jobs start s) (step : m.Step s s')
    (ready : (files s.surroundings).Ready m.destination) :
    (files s'.surroundings).Ready m.destination :=
  ready.puts (fun _ => lies_of_sites spread (reach.step step))
    (puts_of_step houses spread reach step)

theorem holds_of_other {before after : List (Job × Transcript)} {job : Job} {t : Transcript}
    {x : Exchange} (houses : m.environment.Houses files) (spread : Spread m.destination jobs)
    (reach : m.Reachable jobs start s) (old : s.records = before ++ (job, t) :: after)
    (answers : (files s.surroundings).Answers x (files s'.surroundings))
    (permits : job.Permits m.settings t x.call)
    (ready : (files s'.surroundings).Ready m.destination) {record : Job × Transcript}
    (mem : record ∈ s.records)
    (differ : record.1.output.segmentNames ≠ job.output.segmentNames)
    (holds : Holds (files s.surroundings) record.1.output record.2) :
    Holds (files s'.surroundings) record.1.output record.2 := by
  have placed := (placed_of_reachable houses reach).1
  have at_ : (job, t) ∈ s.records := by simp [old]
  have grounds {call : Call} (same : x.call = call) : job.Grounds m.settings t call :=
    same ▸ permits.grounds
  apply holds_beside ready (lies_of_record spread reach mem) (lies_of_record spread reach at_)
    (fun _ => differ) answers
  · intro p same
    exact grounds same
  · intro file bytes same
    have made : ⟨.createFile job.output, .ok file⟩ ∈ t := (grounds same).1
    exact placed (job, t) at_ _ made
  · intro id there
    exact placed record mem _ there
  · exact holds

theorem wanted_of_touches {x : Exchange}
    (grounds : FlushGrounds m.settings m.destination s.minutes x.call)
    (late : s.flushes = 0 → ∃ notice, x.call = .note notice) (touches : x.call.touches) :
    m.settings.graph ∧ s.flushes ≠ 0 := by
  constructor
  · cases call : x.call with
    | createFile p =>
      rw [call] at grounds
      exact grounds.1
    | writeFile file bytes =>
      rw [call] at grounds
      exact grounds.1
    | _ =>
      rw [call] at touches
      cases touches
  · intro none
    obtain ⟨notice, same⟩ := late none
    rw [same] at touches
    cases touches

theorem step_stored (houses : m.environment.Houses files) (spread : Spread m.destination jobs)
    (reach : m.Reachable jobs start s) (step : m.Step s s') (stored : Stored m files s) :
    Stored m files s' := by
  have placed := placed_of_reachable houses reach
  have ready := step_ready houses spread reach step stored.ready
  constructor
  · exact ready
  intro record mem safe
  cases moves_of_step houses reach step with
  | still same records _ begun =>
    rw [same]
    apply stored.holds record (records ▸ mem)
    exact safe.imp_left fun none => by omega
  | @job before after job t x old new answers permits _ unbegun =>
    have at_ : (job, t) ∈ s.records := by simp [old]
    have lies : m.destination.Lies job.output := lies_of_record spread reach at_
    have apart : s.records.Pairwise fun a b =>
        a.1.output.segmentNames ≠ b.1.output.segmentNames := by
      have jobs := spread.apart
      rwa [← jobs_of_records reach, List.pairwise_map] at jobs
    rw [old] at apart
    obtain ⟨_, behind, across⟩ := List.pairwise_append.mp apart
    have elsewhere (mem : record ∈ s.records)
        (differ : record.1.output.segmentNames ≠ job.output.segmentNames) :
        Holds (files s'.surroundings) record.1.output record.2 :=
      holds_of_other houses spread reach old answers permits ready mem differ
        (stored.holds record mem (.inl unbegun))
    rw [new] at mem
    rcases List.mem_append.mp mem with early | late
    · exact elsewhere (by simp [old, early]) (across record early (job, t) List.mem_cons_self)
    · rcases List.mem_cons.mp late with same | late
      · subst same
        exact holds_own stored.ready lies (regular_of_reachable reach (job, t) at_) permits
          answers (stored.holds (job, t) at_ (.inl unbegun))
      · have differ := (List.pairwise_cons.mp behind).1 record late
        exact elsewhere (by simp [old, late]) (Ne.symm differ)
  | @listener x records answers _ grounds begun late =>
    rw [records] at mem
    have before : m.Spared s record.1 := by
      unfold Spared
      rwa [← begun]
    apply holds_beside ready (lies_of_record spread reach mem) (lies_graphPath m.destination) _
      answers
    · intro p same
      rw [same] at grounds
      exact grounds.2
    · intro file bytes same
      rw [same] at grounds
      exact placed.2 _ grounds.2
    · intro id there
      exact placed.1 record mem _ there
    · exact stored.holds record mem before
    · intro touches
      have wanted := wanted_of_touches grounds late touches
      rcases before with none | plain | differ
      · exact absurd none wanted.2
      · rw [plain] at wanted
        cases wanted.1
      · exact differ

def Created (fs : FileSystem) : Exchange → Prop
  | ⟨.createFile p, .ok id⟩ =>
    fs.resolve p = .ok id ∧ id < fs.nodes.size ∧ fs.isDirectoryNode id = false
  | _ => True

theorem created_of_createFile {fs fs' : FileSystem} {p : Path} {id : NodeId}
    (bounded : fs.Bounded) (created : fs.createFile p = .ok (id, fs')) :
    fs'.resolve p = .ok id ∧ id < fs'.nodes.size ∧ fs'.isDirectoryNode id = false := by
  refine ⟨resolve_of_createFile created, ?_⟩
  rcases node_of_createFile created with empty | ⟨same, plain, _⟩
  · exact ⟨lt_size_of_node? empty, by simp [isDirectoryNode, empty]⟩
  · obtain ⟨_, leads⟩ := leadsTo_of_createFile created
    subst same
    exact ⟨bounded.leads leads (bounded.start p), plain⟩

theorem created_of_reachable (houses : m.environment.Houses files)
    (bounded : (files start).Bounded) (reach : m.Reachable jobs start s) :
    ∀ record ∈ s.records, ∀ x ∈ record.2, Created (files s.surroundings) x := by
  refine (shown_in_order Bounded houses ?_ ?_ ?_ bounded reach).2.1
  · intro fs x fs' bounded answers
    rcases answers.changes with same | changes
    · exact same ▸ bounded
    · exact changes.bounded bounded
  · intro fs x fs' bounded answers
    cases answers with
    | createFile created => exact created_of_createFile bounded created
    | _ => trivial
  · intro fs y fs' x bounded answers shown
    obtain ⟨call, answer⟩ := x
    cases call with
    | createFile p =>
      cases answer with
      | error e => trivial
      | ok id =>
        obtain ⟨there, inside, plain⟩ := shown
        refine ⟨answers.grows.resolve there, ?_⟩
        rcases answers.changes with same | changes
        · exact same ▸ ⟨inside, plain⟩
        · exact changes.notDirectory inside plain
    | _ => trivial

theorem spread_of_discovered {fs : FileSystem} {roots : List Path} {destination : Path}
    {settings : Settings} (sound : fs.Sound)
    (found : Discovery.jobs fs roots destination settings = .ok jobs) :
    Spread destination jobs := by
  obtain ⟨sited, apart⟩ := Discovery.jobs_ok sound found
  exact ⟨fun job mem => (sited job mem).lies, apart⟩

theorem stored_of_reachable (houses : m.environment.Houses files)
    (ready : (files start).Ready m.destination) (spread : Spread m.destination jobs)
    (reach : m.Reachable jobs start s) : Stored m files s := by
  induction reach with
  | start =>
    constructor
    · exact ready
    intro record mem _ id created
    rw [records_of_begin record mem] at created
    cases created
  | step reach step ih => exact step_stored houses spread reach step ih

end Setup

end ModuleTree
