import Mathlib.Data.List.Pairwise
import ModuleTree.Proofs.FileSystem.Soundness
import ModuleTree.Proofs.FileSystem.Unshared
import ModuleTree.Proofs.Run.Outputs
/- What is in the files of a run. A file that a job or the graph was written to holds what was
   written to it last, and any other file what it held when the run began. -/
namespace ModuleTree

variable {σ : Type}

theorem FileSystem.Answers.sound {fs fs' : FileSystem} {x : Exchange} (h : fs.Answers x fs')
    (sound : fs.Sound) : fs'.Sound := by
  cases h with
  | makeDirectory made => exact sound_makeDirectory sound made
  | createFile created => exact sound_createFile sound created
  | writeFile file bytes => exact sound_writeNode sound file bytes
  | spoiled here _ after => exact sound_setFile sound here after
  | _ => exact sound

def Creates (t : Transcript) (id : NodeId) : Prop := ∃ p, ⟨.createFile p, .ok id⟩ ∈ t

def InTurn (t : Transcript) : Call → Prop
  | .createFile _ => Untried t
  | .writeFile file _ => Untried t ∧ ∀ id, Creates t id → id = file
  | _ => True

/-- Exchanges of one who creates a file and then writes to it once. -/
inductive Turns : Transcript → Prop where
  | nil : Turns []
  | concat {t : Transcript} {x : Exchange} (turns : Turns t) (turn : InTurn t x.call) :
      Turns (t ++ [x])

section Turns
open Procedure

variable {t : Transcript} {x : Exchange} {id : NodeId}

theorem Turns.turn (h : Turns (t ++ [x])) : InTurn t x.call := by
  generalize whole : t ++ [x] = u at h
  cases h with
  | nil => simp at whole
  | concat _ turn =>
    obtain ⟨same, last⟩ := List.append_inj' whole rfl
    cases last
    rwa [same]

theorem creates_concat :
    Creates (t ++ [x]) id ↔ Creates t id ∨ ∃ p, x = ⟨.createFile p, .ok id⟩ := by
  simp [Creates, exists_or, eq_comm]

theorem turns_of_regular {settings : Settings} {job : Job} (regular : Regular settings job t) :
    Turns t := by
  induction regular with
  | nil => exact .nil
  | @concat t x regular permits ih =>
    refine ih.concat ?_
    obtain ⟨call, answer⟩ := x
    cases call with
    | createFile p =>
      exact untried_of_early fun y mem =>
        Nat.lt_trans (permits.turn (by decide : 0 < 2) y mem) (by decide : 2 < 6)
    | writeFile file bytes =>
      refine ⟨untried_of_early (permits.turn (by decide : 0 < 6)), fun id ⟨p, created⟩ => ?_⟩
      cases eq_of_rank regular permits.grounds.1 created (by decide : 0 < 2) rfl
      rfl
    | _ => trivial

theorem untried_concat (h : Untried t) (other : ∀ file bytes, x.call ≠ .writeFile file bytes) :
    Untried (t ++ [x]) := by
  intro file bytes answer mem
  rcases List.mem_append.mp mem with past | last
  · exact h file bytes answer past
  · exact other file bytes (List.mem_singleton.mp last ▸ rfl)

theorem Turns.once (h : Turns t) {file file' : NodeId} {bytes bytes' : ByteArray}
    {answer answer' : Except IoError Unit} (first : ⟨.writeFile file bytes, answer⟩ ∈ t)
    (second : ⟨.writeFile file' bytes', answer'⟩ ∈ t) : answer = answer' := by
  induction h with
  | nil => cases first
  | concat _ turn ih =>
    rcases List.mem_append.mp first with past | last
    · rcases List.mem_append.mp second with past' | last'
      · exact ih past past'
      · cases List.mem_singleton.mp last'
        exact absurd past (turn.1 file bytes answer)
    · cases List.mem_singleton.mp last
      rcases List.mem_append.mp second with past' | last'
      · exact absurd past' (turn.1 file' bytes' answer')
      · cases List.mem_singleton.mp last'
        rfl

theorem eq_of_written {file : NodeId} {bytes : ByteArray} (h : x.written? = some (file, bytes)) :
    x = ⟨.writeFile file bytes, .ok ()⟩ := by
  unfold Exchange.written? at h
  split at h
  · cases h
    rfl
  · cases h

theorem Turns.unspoiled_of_wrote (h : Turns t) {p : Path} {bytes : ByteArray}
    (wrote : Wrote t p bytes) : Unspoiled t := by
  obtain ⟨file, _, written⟩ := wrote
  have mem : (file, bytes) ∈ t.filterMap Exchange.written? := by simp [written]
  obtain ⟨y, there, same⟩ := List.mem_filterMap.mp mem
  cases eq_of_written same
  intro other bytes' e failed
  cases h.once there failed

structure Idle (t : Transcript) : Prop where
  turns : Turns t
  untried : Untried t
  none : ∀ id, ¬Creates t id

theorem idle_concat (h : Idle t) (plain : x.call.isPlain) : Idle (t ++ [x]) := by
  obtain ⟨call, answer⟩ := x
  refine ⟨h.turns.concat ?_, ?_, fun id created => ?_⟩
  · cases call with
    | createFile | writeFile => cases plain
    | _ => trivial
  · refine untried_concat h.untried fun file bytes same => ?_
    rw [same] at plain
    cases plain
  · rcases creates_concat.mp created with past | ⟨p, same⟩
    · exact h.none id past
    · cases same
      cases plain

theorem idle_of_noted (noted : Noted t) : Idle t := by
  induction t using List.reverseRecOn with
  | nil => exact ⟨.nil, by simp [Untried], by simp [Creates]⟩
  | append_singleton t x ih =>
    obtain ⟨notice, same⟩ := noted x (by simp)
    refine idle_concat (ih fun y mem => noted y (by simp [mem])) ?_
    rw [same]
    rfl

theorem flush_turns (a : Aggregator) (idle : Idle t) :
    Keeps Turns (fun _ _ => True) t a.flush := by
  unfold Aggregator.flush Accumulator.flush
  cases a.accumulator.graph with
  | none => trivial
  | some g =>
    have made := ensureDirectory_keeps (fun t x => idle_concat) idle a.destination
    refine keeps_bind (keeps_bind_of (keeps_mono made (fun _ => Idle.turns) fun _ _ => id)
      fun t₁ outcome _ made => ?_)
    cases outcome with
    | error e => trivial
    | ok _ =>
      refine keeps_bind (keeps_call fun created => ?_)
      have after : Turns (t₁ ++ [⟨.createFile (graphPath a.destination), created⟩]) :=
        made.1.turns.concat made.1.untried
      refine ⟨after, ?_⟩
      cases created with
      | error e => trivial
      | ok file =>
        refine keeps_bind (keeps_call fun written => ?_)
        have turn : InTurn (t₁ ++ [⟨.createFile (graphPath a.destination), .ok file⟩])
            (.writeFile file (Accumulator.fileText g).toUTF8) := by
          refine ⟨untried_concat made.1.untried (by simp), fun id there => ?_⟩
          rcases creates_concat.mp there with past | ⟨p, same⟩
          · exact absurd past (made.1.none id)
          · cases same
            rfl
        have last := after.concat (x := ⟨.writeFile file _, written⟩) turn
        refine ⟨last, ?_⟩
        cases written with
        | error e => trivial
        | ok _ =>
          refine keeps_bind (keeps_call fun answer => ?_)
          exact ⟨last.concat trivial, trivial⟩

end Turns

namespace FileSystem

variable {fs fs' : FileSystem} {id other : NodeId} {content : ByteArray} {p : Path}

theorem file_of_addNode {directory parent : NodeId} {name : Bytes} {node : Node}
    {entries : List (Bytes × NodeId)} (here : fs.node? directory = some (.directory parent entries))
    (after : (fs.addNode directory name node).2.node? id = some (.file content)) :
    id = fs.nodes.size ∧ node = .file content ∨
      id ≠ fs.nodes.size ∧ fs.node? id = some (.file content) := by
  rw [node?_addNode here] at after
  split at after
  · cases after
  · split at after
    · rename_i new
      exact .inl ⟨new, Option.some.inj after⟩
    · rename_i old
      exact .inr ⟨old, after⟩

theorem file_of_setNode {before content' : ByteArray} (here : fs.node? other = some (.file before))
    (after : (fs.setNode other (.file content')).node? id = some (.file content)) :
    id = other ∧ content = content' ∨ id ≠ other ∧ fs.node? id = some (.file content) := by
  rw [node?_setNode] at after
  by_cases same : other = id
  · rw [if_pos ⟨same, lt_size_of_node? here⟩] at after
    cases after
    exact .inl ⟨same.symm, rfl⟩
  · rw [if_neg fun h => same h.1] at after
    exact .inr ⟨Ne.symm same, after⟩

theorem file_of_createFile (created : fs.createFile p = .ok (other, fs'))
    (after : fs'.node? id = some (.file content)) :
    id = other ∧ content = .empty ∨ id ≠ other ∧ fs.node? id = some (.file content) := by
  obtain ⟨_, _, ⟨directory, name, gap, same⟩ | ⟨_, ⟨_, here, same⟩ | ⟨same, _, plain⟩⟩⟩ :=
    createFile_ok created
  · obtain ⟨_, _, _, _, _, parent, entries, open_, _⟩ := gap_of_follow gap
    have new := addNode_id fs directory name (.file .empty)
    rw [← same] at new
    have grown : fs' = (fs.addNode directory name (.file .empty)).2 := by rw [← same]
    rw [grown] at after
    rcases file_of_addNode open_.node after with ⟨at_, empty⟩ | ⟨old, there⟩
    · cases empty
      exact .inl ⟨at_.trans new.symm, rfl⟩
    · exact .inr ⟨fun at_ => old (at_.trans new), there⟩
  · exact file_of_setNode here (same ▸ after)
  · subst same
    exact .inr ⟨fun at_ => plain content (at_ ▸ after), after⟩

theorem file_of_answers {x : Exchange} (answers : fs.Answers x fs')
    (after : fs'.node? id = some (.file content)) :
    (∃ p, x = ⟨.createFile p, .ok id⟩) ∧ content = .empty ∨
      (∃ bytes answer before, x = ⟨.writeFile id bytes, answer⟩ ∧
        fs.node? id = some (.file before) ∧
        (answer = .ok () → content = bytes ++ before.extract bytes.size before.size)) ∨
      (∀ p, x ≠ ⟨.createFile p, .ok id⟩) ∧ (∀ bytes, x.call ≠ .writeFile id bytes) ∧
        fs.node? id = some (.file content) := by
  cases answers with
  | makeDirectory made =>
    obtain ⟨directory, name, slashed, gap, same⟩ := makeDirectory_ok made
    obtain ⟨_, _, _, _, _, parent, entries, open_, _⟩ := gap_of_follow gap
    rcases file_of_addNode open_.node (same ▸ after) with ⟨_, other⟩ | ⟨_, there⟩
    · cases other
    · exact .inr (.inr ⟨by simp, by simp, there⟩)
  | createFile created =>
    rcases file_of_createFile created after with ⟨same, empty⟩ | ⟨other, there⟩
    · exact .inl ⟨⟨_, by rw [same]⟩, empty⟩
    · refine .inr (.inr ⟨fun p same => ?_, by simp, there⟩)
      cases same
      exact other rfl
  | writeFile file bytes =>
    rcases writeNode_cases fs file bytes with ⟨before, here, same⟩ | ⟨plain, same⟩
    · rw [same] at after
      rcases file_of_setNode here after with ⟨same, content⟩ | ⟨other, there⟩
      · subst same
        exact .inr (.inl ⟨bytes, .ok (), before, rfl, here, fun _ => content⟩)
      · refine .inr (.inr ⟨by simp, fun bytes same => ?_, there⟩)
        cases same
        exact other rfl
    · rw [same] at after
      refine .inr (.inr ⟨by simp, fun bytes same => ?_, after⟩)
      cases same
      exact plain content after
  | notWritten file bytes e =>
    by_cases same : file = id
    · subst same
      exact .inr (.inl ⟨bytes, .error e, content, rfl, after, nofun⟩)
    · exact .inr (.inr ⟨by simp, by simp [same], after⟩)
  | @spoiled file before here bytes left e =>
    rcases file_of_setNode here after with ⟨same, _⟩ | ⟨other, there⟩
    · subst same
      exact .inr (.inl ⟨bytes, .error e, before, rfl, here, nofun⟩)
    · exact .inr (.inr ⟨by simp, by simp [Ne.symm other], there⟩)
  | _ => exact .inr (.inr ⟨by simp, by simp, after⟩)

end FileSystem

/-- What an exchange in its turn makes of a file: what has been written of it, if it was created
and no write has failed, and nothing otherwise. -/
theorem content_of_turn {fs fs' : FileSystem} {t : Transcript} {x : Exchange} {id : NodeId}
    {content : ByteArray} (answers : fs.Answers x fs') (turn : InTurn t x.call)
    (written : ∀ file bytes, x.call = .writeFile file bytes → Creates t file)
    (after : fs'.node? id = some (.file content)) :
    Creates (t ++ [x]) id ∧ ((∀ before, fs.node? id = some (.file before) → Creates t id →
        Unspoiled t → before = deposit t) → Unspoiled (t ++ [x]) → content = deposit (t ++ [x])) ∨
      ¬Creates (t ++ [x]) id ∧ fs.node? id = some (.file content) := by
  rcases FileSystem.file_of_answers answers after with
    ⟨⟨p, same⟩, empty⟩ | ⟨bytes, answer, before, same, here, content⟩ | ⟨other, unwritten, here⟩
  · subst same
    refine .inl ⟨creates_concat.mpr (.inr ⟨p, rfl⟩), fun _ _ => ?_⟩
    rw [empty, deposit_unwritten rfl, deposit_of_untried turn]
  · subst same
    obtain ⟨untried, _⟩ : InTurn t (.writeFile id bytes) := turn
    have created := written id bytes rfl
    refine .inl ⟨creates_concat.mpr (.inl created), fun held unspoiled => ?_⟩
    cases answer with
    | error e => exact absurd (List.mem_append_right _ List.mem_cons_self) (unspoiled id bytes e)
    | ok _ =>
      rw [content rfl, held before here created (unspoiled_front unspoiled),
        deposit_of_untried untried, FileSystem.extract_empty, ByteArray.append_empty]
      simp [deposit, Exchange.written?]
  · by_cases created : Creates t id
    · refine .inl ⟨creates_concat.mpr (.inl created), fun held unspoiled => ?_⟩
      rw [held content here created (unspoiled_front unspoiled)]
      -- Whoever has created this file writes to no other.
      obtain ⟨call, answer⟩ := x
      cases call with
      | writeFile file bytes =>
        exact absurd rfl (turn.2 id created ▸ unwritten bytes)
      | _ => exact (deposit_unwritten rfl).symm
    · refine .inr ⟨fun there => ?_, here⟩
      rcases creates_concat.mp there with past | ⟨p, same⟩
      · exact created past
      · exact other p same

namespace Run

/-- What a file holds: what was written to it last, by the listener or else by a job, and otherwise
what it held before. A write that failed may have left anything. -/
inductive Filled (s : Run σ) (before : FileSystem) (id : NodeId) (content : ByteArray) : Prop where
  | graph (created : Creates s.minutes id) (same : Unspoiled s.minutes → content = deposit s.minutes)
  | output {record : Job × Transcript} (mem : record ∈ s.records) (created : Creates record.2 id)
      (later : ¬Creates s.minutes id) (same : Unspoiled record.2 → content = deposit record.2)
  | untouched (untaken : ∀ record ∈ s.records, ¬Creates record.2 id)
      (later : ¬Creates s.minutes id) (same : before.node? id = some (.file content))

end Run

namespace Setup
open Run FileSystem

variable {m : Setup σ} {jobs : List Job} {start : σ} {s s' : Run σ} {files : σ → FileSystem}
  {id : NodeId} {content : ByteArray}

theorem sound_of_reachable (houses : m.environment.Houses files) (sound : (files start).Sound)
    (reach : m.Reachable jobs start s) : (files s.surroundings).Sound := by
  induction reach with
  | start => exact sound
  | step reach step ih =>
    cases moves_of_step houses reach step with
    | still same => exact same ▸ ih
    | job _ _ answers | listener _ answers => exact answers.sound ih

theorem unshared_of_reachable (houses : m.environment.Houses files)
    (spread : Spread m.destination jobs) (sound : (files start).Sound)
    (unshared : (files start).Awaits m.destination Unshared) (reach : m.Reachable jobs start s) :
    (files s.surroundings).Awaits m.destination Unshared := by
  induction reach with
  | start => exact unshared
  | step reach step ih =>
    exact ih.unshared_puts (sound_of_reachable houses sound reach).bounded
      (fun _ => lies_of_sites spread (reach.step step)) (puts_of_step houses spread reach step)

theorem turns_of_minutes (reach : m.Reachable jobs start s) : Turns s.minutes :=
  (kept_in_minutes (fun _ noted => (idle_of_noted noted).turns)
    (fun a _ _ _ noted => flush_turns a (idle_of_noted noted)) reach).1

theorem resolve_of_creates (houses : m.environment.Houses files) (reach : m.Reachable jobs start s)
    {record : Job × Transcript} (mem : record ∈ s.records) (created : Creates record.2 id) :
    (files s.surroundings).resolve record.1.output = .ok id := by
  obtain ⟨p, there⟩ := created
  have output : p = record.1.output :=
    grounds_of_regular (regular_of_reachable reach record mem) _ there
  subst output
  exact (placed_of_reachable houses reach).1 record mem _ there

theorem resolve_of_creates_minutes (houses : m.environment.Houses files)
    (reach : m.Reachable jobs start s) (created : Creates s.minutes id) :
    (files s.surroundings).resolve (graphPath m.destination) = .ok id := by
  obtain ⟨p, there⟩ := created
  have graph : p = graphPath m.destination := ((minuted_of_reachable reach).minutes _ there).2
  subst graph
  exact (placed_of_reachable houses reach).2 _ there

theorem one_owner (houses : m.environment.Houses files) (spread : Spread m.destination jobs)
    (sound : (files start).Sound) (unshared : (files start).Awaits m.destination Unshared)
    (reach : m.Reachable jobs start s) {record record' : Job × Transcript}
    (mem : record ∈ s.records) (mem' : record' ∈ s.records) (created : Creates record.2 id)
    (created' : Creates record'.2 id) : record = record' := by
  by_contra differ
  have apart : s.records.Pairwise fun a b =>
      a.1.output.segmentNames ≠ b.1.output.segmentNames := by
    have jobs := spread.apart
    rwa [← jobs_of_records reach, List.pairwise_map] at jobs
  have : Std.Symm fun a b : Job × Transcript =>
      a.1.output.segmentNames ≠ b.1.output.segmentNames := ⟨fun _ _ other => other.symm⟩
  exact apart.forall mem mem' differ
    ((unshared_of_reachable houses spread sound unshared reach).segmentNames_unique
      (sound_of_reachable houses sound reach) (lies_of_record spread reach mem)
      (lies_of_record spread reach mem') (resolve_of_creates houses reach mem created)
      (resolve_of_creates houses reach mem' created'))

theorem noted_of_unbegun (reach : m.Reachable jobs start s) (unbegun : s.flushes = 0) :
    Noted s.minutes := by
  rcases quiet_or_released (valid_of_reachable reach) with quiet | ⟨begun, _⟩
  · exact quiet.2
  · rw [unbegun] at begun
    cases begun

theorem not_creates_of_noted {t : Transcript} (noted : Noted t) : ¬Creates t id :=
  (idle_of_noted noted).none id

theorem filled_of_reachable (houses : m.environment.Houses files)
    (spread : Spread m.destination jobs) (sound : (files start).Sound)
    (unshared : (files start).Awaits m.destination Unshared) (reach : m.Reachable jobs start s)
    (there : (files s.surroundings).node? id = some (.file content)) :
    s.Filled (files start) id content := by
  induction reach generalizing content with
  | start =>
    refine .untouched (fun record mem created => ?_) (by simp [Creates, begin]) there
    rw [records_of_begin record mem] at created
    simp [Creates] at created
  | @step s s' reach step ih =>
    cases moves_of_step houses reach step with
    | still same records minutes =>
      rw [same] at there
      cases ih there with
      | graph created same => exact .graph (minutes ▸ created) (minutes ▸ same)
      | output mem created later same =>
        exact .output (records ▸ mem) created (minutes ▸ later) same
      | untouched untaken later same => exact .untouched (records ▸ untaken) (minutes ▸ later) same
    | @job before after job t x old new answers permits minutes unbegun =>
      have at_ : (job, t) ∈ s.records := by simp [old]
      have at' : (job, t ++ [x]) ∈ s'.records := by simp [new]
      have turn := (turns_of_regular (regular_of_reachable (reach.step step) _ at')).turn
      have early : ¬Creates s.minutes id := not_creates_of_noted (noted_of_unbegun reach unbegun)
      have later : ¬Creates s'.minutes id := minutes ▸ early
      have written (file : NodeId) (bytes : ByteArray) (same : x.call = .writeFile file bytes) :
          Creates t file := by
        have grounds := permits.grounds
        rw [same] at grounds
        exact ⟨job.output, grounds.1⟩
      rcases content_of_turn answers turn written there with ⟨created, held⟩ | ⟨uncreated, here⟩
      · refine .output at' created later (held fun content here creates => ?_)
        cases ih here with
        | graph created => exact absurd created early
        | output mem created' _ same =>
          cases one_owner houses spread sound unshared reach mem at_ created' creates
          exact same
        | untouched untaken => exact absurd creates (untaken _ at_)
      · cases ih here with
        | graph created => exact absurd created early
        | output mem created' _ same =>
          refine .output (new ▸ ?_) created' later same
          rw [old] at mem
          rcases List.mem_append.mp mem with earlier | rest
          · simp [earlier]
          · rcases List.mem_cons.mp rest with own | after
            · rw [own] at created'
              exact absurd (creates_concat.mpr (.inl created')) uncreated
            · simp [after]
        | untouched untaken _ same =>
          refine .untouched (new ▸ ?_) later same
          exact forall_replaced (old ▸ untaken) uncreated
    | @listener x records answers minutes grounds begun late =>
      have turn := (minutes ▸ turns_of_minutes (reach.step step) : Turns (s.minutes ++ [x])).turn
      have written (file : NodeId) (bytes : ByteArray) (same : x.call = .writeFile file bytes) :
          Creates s.minutes file := by
        rw [same] at grounds
        exact ⟨graphPath m.destination, grounds.2⟩
      rcases content_of_turn answers turn written there with ⟨created, held⟩ | ⟨uncreated, here⟩
      · refine .graph (minutes ▸ created) (minutes ▸ held fun content here creates => ?_)
        cases ih here with
        | graph _ same => exact same
        | output _ _ later | untouched _ later => exact absurd creates later
      · rw [← minutes] at uncreated
        cases ih here with
        | graph created =>
          rw [minutes] at uncreated
          exact absurd (creates_concat.mpr (.inl created)) uncreated
        | output mem created' _ same => exact .output (records ▸ mem) created' uncreated same
        | untouched untaken _ same => exact .untouched (records ▸ untaken) uncreated same

end Setup

end ModuleTree
