import ModuleTree.Proofs.Run.Files
/- Directories are made for a reason. Whoever makes one has found the place missing that it is made
   for, so where that place is there from the beginning no directory is made. -/
namespace ModuleTree

variable {σ : Type}

/-- Directories were made only after this place was found missing. -/
def Warranted (place : Option Path) (t : Transcript) : Prop :=
  ∀ x ∈ t, ∀ q, x.call = .makeDirectory q →
    ∃ p, place = some p ∧ p.isEmpty = false ∧ ⟨.pathExists p, false⟩ ∈ t

section Warranted
open Procedure

variable {place : Option Path} {p : Path} {t : Transcript} {x : Exchange}

theorem warranted_nil : Warranted place [] := by
  simp [Warranted]

theorem warranted_concat (h : Warranted place t) (other : ∀ q, x.call ≠ .makeDirectory q) :
    Warranted place (t ++ [x]) := by
  intro y mem q made
  rcases List.mem_append.mp mem with past | last
  · obtain ⟨p, same, nonempty, missing⟩ := h y past q made
    exact ⟨p, same, nonempty, List.mem_append_left [x] missing⟩
  · rw [List.mem_singleton.mp last] at made
    exact absurd made (other q)

theorem keeps_warranted {α : Type} (work : Procedure α) (nonempty : p.isEmpty = false)
    (missing : ⟨.pathExists p, false⟩ ∈ t) :
    Keeps (Warranted (some p)) (fun t _ => Warranted (some p) t) t work := by
  have always {t : Transcript} (missing : ⟨.pathExists p, false⟩ ∈ t) : Warranted (some p) t :=
    fun _ _ _ _ => ⟨p, rfl, nonempty, missing⟩
  induction work generalizing t with
  | done a => exact always missing
  | ask call next ih =>
    intro answer
    have still := List.mem_append_left [⟨call, answer⟩] missing
    exact ⟨always still, ih answer still⟩

theorem ensureDirectory_warranted (h : Warranted (some p) t) :
    Keeps (Warranted (some p)) (fun t _ => Warranted (some p) t) t (ensureDirectory p) := by
  unfold ensureDirectory Path.chain ensureChain
  split
  · exact h
  · rename_i named
    have nonempty : p.isEmpty = false := by simpa using named
    refine keeps_bind (keeps_call fun there => ?_)
    have looked := warranted_concat (x := ⟨.pathExists p, there⟩) h (by simp)
    refine ⟨looked, ?_⟩
    cases there with
    | true => exact looked
    | false => exact keeps_warranted _ nonempty (by simp)

theorem ensureParent_warranted {output : Path} (h : Warranted output.parent? t) :
    Keeps (Warranted output.parent?) (fun t _ => Warranted output.parent? t) t
      (ensureParent output) := by
  unfold ensureParent
  split
  · exact h
  · rename_i parent above
    rw [above] at h ⊢
    exact ensureDirectory_warranted h

theorem openFiles_warranted {job : Job} (h : Warranted job.output.parent? t) :
    Keeps (Warranted job.output.parent?) (fun t _ => Warranted job.output.parent? t) t
      (openFiles job) := by
  refine keeps_bind_of (ensureParent_warranted h) fun t outcome _ made => ?_
  cases outcome with
  | error e => exact made
  | ok _ =>
    refine keeps_bind (keeps_call fun input => ?_)
    have opened := warranted_concat (x := ⟨.openFile job.input, input⟩) made (by simp)
    refine ⟨opened, ?_⟩
    cases input with
    | error e => exact opened
    | ok input =>
      refine keeps_bind (keeps_call fun output => ?_)
      have created := warranted_concat (x := ⟨.createFile job.output, output⟩) opened (by simp)
      refine ⟨created, ?_⟩
      cases output <;> exact created

theorem compileFile_warranted (settings : Settings) (job : Job) :
    Keeps (Warranted job.output.parent?) (fun _ _ => True) [] (compileFile settings job) := by
  have inner (t : Transcript) (x : Exchange) (h : Warranted job.output.parent? t)
      (inner : x.call.isInner) : Warranted job.output.parent? (t ++ [x]) := by
    refine warranted_concat h fun q made => ?_
    rw [made] at inner
    cases inner
  refine keeps_bind (keeps_call fun answer => ?_)
  have noted := inner _ ⟨.note _, answer⟩ warranted_nil rfl
  refine ⟨noted, keeps_bind_of (openFiles_warranted noted) fun t outcome _ after => ?_⟩
  cases outcome with
  | error e => trivial
  | ok files =>
    have stream := compileStream_asks (fun c inner => inner) settings job files.1 files.2
    refine keeps_bind_of (keeps_of_asks stream inner after) fun t outcome _ after => ?_
    cases outcome with
    | error e => trivial
    | ok module =>
      have last := report_asks (fun c inner => inner) (.finished job.output)
      exact keeps_mono (keeps_of_asks last inner after) (fun _ => id) fun _ _ _ => trivial

theorem flush_warranted (a : Aggregator)
    (wanted : a.accumulator.graph.isSome → place = some a.destination) (h : Warranted place t) :
    Keeps (Warranted place) (fun _ _ => True) t a.flush := by
  unfold Aggregator.flush Accumulator.flush
  cases graph : a.accumulator.graph with
  | none => trivial
  | some g =>
    obtain rfl := wanted (by simp [graph])
    refine keeps_bind (keeps_bind_of (ensureDirectory_warranted h) fun t outcome _ made => ?_)
    cases outcome with
    | error e => trivial
    | ok _ =>
      refine keeps_bind (keeps_call fun created => ?_)
      have after := warranted_concat
        (x := ⟨.createFile (a.destination.child Accumulator.fileName), created⟩) made (by simp)
      refine ⟨after, ?_⟩
      cases created with
      | error e => trivial
      | ok file =>
        refine keeps_bind (keeps_call fun written => ?_)
        have after := warranted_concat
          (x := ⟨.writeFile file (Accumulator.fileText g).toUTF8, written⟩) after (by simp)
        refine ⟨after, ?_⟩
        cases written with
        | error e => trivial
        | ok _ =>
          refine keeps_bind (keeps_call fun answer => ?_)
          exact ⟨warranted_concat (x := ⟨.note _, answer⟩) after (by simp), trivial⟩

end Warranted

namespace Setup
open Run

variable {m : Setup σ} {jobs : List Job} {start : σ} {s : Run σ}

theorem warranted_of_reachable (reach : m.Reachable jobs start s) :
    ∀ record ∈ s.records, Warranted record.1.output.parent? record.2 := by
  intro record mem
  obtain ⟨t, there, rfl⟩ := mem_records mem
  refine (kept_of_reachable ?_ (compileFile_warranted m.settings) reach t there).1
  intro job
  exact warranted_nil

theorem warranted_minutes (reach : m.Reachable jobs start s) :
    Warranted (if m.settings.graph then some m.destination else none) s.minutes := by
  have of_noted (t : Transcript) (noted : Noted t) :
      Warranted (if m.settings.graph then some m.destination else none) t := by
    intro x mem q made
    obtain ⟨notice, same⟩ := noted x mem
    cases made.symm.trans same
  refine (kept_in_minutes of_noted (fun a destination wanted t noted => ?_) reach).1
  refine flush_warranted a (fun graph => ?_) (of_noted t noted)
  rw [if_pos (wanted graph), destination]

end Setup

end ModuleTree
