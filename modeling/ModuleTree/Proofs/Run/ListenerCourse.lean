import ModuleTree.Proofs.Dictionary
import ModuleTree.Proofs.Run.JobCourse
import ModuleTree.Run.Aggregator
/- The course of the listener. What it has counted and collected is told by the reports it
   has heard, and writing the graph either leaves one complete file or fails on a call. -/
namespace ModuleTree

def Event.node? : Event → Option (String × List String)
  | .compiled node requires => some (node, requires)
  | .finished _ => none

def Event.isFinished : Event → Bool
  | .compiled _ _ => false
  | .finished _ => true

def nodesOf (events : List Event) : List (String × List String) := events.filterMap Event.node?

def namesOf (events : List Event) : List String := (nodesOf events).map Prod.fst

def finishedIn (events : List Event) : Nat := events.countP Event.isFinished

def graphPath (destination : Path) : Path := destination.child Accumulator.fileName

def Noted (t : Transcript) : Prop := ∀ x ∈ t, ∃ notice, x.call = .note notice

theorem nodesOf_append (a b : List Event) : nodesOf (a ++ b) = nodesOf a ++ nodesOf b :=
  List.filterMap_append

theorem finishedIn_append (a b : List Event) : finishedIn (a ++ b) = finishedIn a + finishedIn b :=
  List.countP_append

theorem noted_concat {t : Transcript} (h : Noted t) (notice : Notice) (answer : Unit) :
    Noted (t ++ [⟨.note notice, answer⟩]) :=
  forall_concat h ⟨notice, rfl⟩

theorem unwritten_of_noted {t : Transcript} (h : Noted t) :
    t.filterMap Exchange.written? = [] := by
  rw [List.filterMap_eq_nil_iff]
  intro x mem
  obtain ⟨notice, same⟩ := h x mem
  obtain ⟨call, answer⟩ := x
  subst same
  rfl

def Accumulator.ofNodes (graph : Bool) (nodes : List (String × List String)) : Accumulator :=
  ⟨if graph then some (.ofList nodes) else none⟩

theorem append_ofNodes (nodes : List (String × List String)) (name : String)
    (requires : List String) :
    (Accumulator.ofNodes true nodes).append name requires =
      if name ∈ nodes.map Prod.fst then .error (.duplicateModule name)
      else .ok (.ofNodes true (nodes ++ [(name, requires)])) := by
  simp only [Accumulator.append, Accumulator.ofNodes, if_true, Dictionary.isSome_get?_ofList,
    Dictionary.ofList_concat]

theorem append_without_graph (nodes more : List (String × List String)) (name : String)
    (requires : List String) :
    (Accumulator.ofNodes false nodes).append name requires = .ok (.ofNodes false more) := rfl

structure Counted (destination : Path) (settings : Settings) (expected : Nat)
    (heard : List Event) (a : Aggregator) : Prop where
  destination : a.destination = destination
  remaining : a.barrier.remaining + finishedIn heard = expected
  accumulator : a.accumulator = .ofNodes settings.graph (nodesOf heard)
  distinct : settings.graph → (namesOf heard).Nodup

theorem Counted.graph_wanted {destination : Path} {settings : Settings} {expected : Nat}
    {heard : List Event} {a : Aggregator} (h : Counted destination settings expected heard a) :
    a.accumulator.graph.isSome ↔ settings.graph := by
  rw [h.accumulator, Accumulator.ofNodes]
  cases settings.graph <;> simp

section Judging

variable {destination : Path} {settings : Settings} {expected : Nat} {heard : List Event}
  {a : Aggregator}

theorem new_counted (destination : Path) (settings : Settings) (expected : Nat) :
    Counted destination settings expected [] (.new destination settings expected) where
  destination := rfl
  remaining := rfl
  accumulator := by
    cases graph : settings.graph <;> simp [Aggregator.new, Accumulator.new, Accumulator.ofNodes,
      graph, nodesOf, Dictionary.ofList]
  distinct := by simp [namesOf, nodesOf]

theorem judge_compiled (h : Counted destination settings expected heard a) (node : String)
    (requires : List String) :
    (∃ b, a.judge (.compiled node requires) = .ok (.listen b) ∧
      Counted destination settings expected (heard ++ [.compiled node requires]) b ∧
      b.barrier = a.barrier ∧ b.written = a.written) ∨
    (settings.graph ∧ node ∈ namesOf heard ∧
      a.judge (.compiled node requires) = .error (.graph (.duplicateModule node))) := by
  have nodes : nodesOf (heard ++ [.compiled node requires]) = nodesOf heard ++ [(node, requires)] :=
    nodesOf_append heard _
  have count : finishedIn (heard ++ [.compiled node requires]) = finishedIn heard :=
    finishedIn_append heard _
  simp only [Aggregator.judge, h.accumulator]
  cases graph : settings.graph with
  | false =>
    rw [append_without_graph _ (nodesOf (heard ++ [.compiled node requires]))]
    refine .inl ⟨_, rfl, ⟨h.destination, count ▸ h.remaining, ?_, ?_⟩, rfl, rfl⟩
    · rw [graph]
    · simp [graph]
  | true =>
    rw [append_ofNodes]
    by_cases twice : node ∈ (nodesOf heard).map Prod.fst
    · rw [if_pos twice]
      exact .inr ⟨rfl, twice, rfl⟩
    · rw [if_neg twice, ← nodes]
      refine .inl ⟨_, rfl, ⟨h.destination, count ▸ h.remaining, ?_, ?_⟩, rfl, rfl⟩
      · rw [graph]
      · intro _
        have before : ((nodesOf heard).map Prod.fst).Nodup := h.distinct graph
        simp only [namesOf, nodes, List.map_append, List.nodup_append, before]
        refine ⟨trivial, by simp, ?_⟩
        intro name mem other again same
        rw [List.mem_singleton.mp again] at same
        change name = node at same
        exact twice (same ▸ mem)

theorem judge_finished (h : Counted destination settings expected heard a) (output : Path)
    {left : Nat} (more : a.barrier.remaining = left + 1) :
    ∃ b, a.judge (.finished output) = .ok (if left = 0 then .flush b else .listen b) ∧
      Counted destination settings expected (heard ++ [.finished output]) b ∧
      b.barrier.remaining = left ∧ b.written = a.written := by
  have nodes : nodesOf (heard ++ [.finished output]) = nodesOf heard := by
    simp [nodesOf, Event.node?]
  have count : finishedIn (heard ++ [.finished output]) = finishedIn heard + 1 :=
    finishedIn_append heard _
  refine ⟨{ a with barrier := ⟨left⟩ }, ?_, ⟨h.destination, ?_, ?_, ?_⟩, rfl, rfl⟩
  · obtain ⟨destination, ⟨remaining⟩, accumulator, written⟩ := a
    subst more
    by_cases last : left = 0 <;>
      simp [Aggregator.judge, Barrier.decrement, Barrier.Release.of, last]
  · have := h.remaining
    simp only [count]
    omega
  · rw [nodes]
    exact h.accumulator
  · intro graph
    have before := h.distinct graph
    simpa only [namesOf, nodes] using before

end Judging

section Course
open Procedure

theorem saying_keeps {post : Except RunError Duty → Prop} {t : Transcript} (noted : Noted t)
    (remark : Option Notice) {verdict : Except RunError Duty} (h : post verdict) :
    Keeps Noted (fun t v => Noted t ∧ post v) t (Aggregator.saying remark verdict) := by
  cases remark with
  | none => exact ⟨noted, h⟩
  | some notice =>
    refine keeps_bind (keeps_call fun answer => ?_)
    have still := noted_concat noted notice answer
    exact ⟨still, still, h⟩

def Flushed (a : Aggregator) (t : Transcript) : Prop :=
  match a.accumulator.graph with
  | none => a.written = none ∧ t.filterMap Exchange.written? = []
  | some g => a.written = some (graphPath a.destination) ∧
      Wrote t (graphPath a.destination) (Accumulator.fileText g).toUTF8

/-- Why the graph could not be written: a directory above it, or the file itself. -/
def FlushFailed (destination : Path) (t : Transcript) (e : GraphError) : Prop :=
  t.filterMap Exchange.written? = [] ∧
    ((∃ above, e = .directory above ∧ Blamed t above) ∨
      ∃ error, e = .write (graphPath destination) error ∧
        (⟨.createFile (graphPath destination), .error error⟩ ∈ t ∨
          ∃ file bytes, ⟨.writeFile file bytes, .error error⟩ ∈ t))

def FlushEnds (a : Aggregator) (t : Transcript) : Except RunError Aggregator → Prop
  | .ok b => (∃ written, b = { a with written }) ∧ Flushed b t
  | .error e => a.accumulator.graph.isSome ∧
      ∃ fault, e = .graph fault ∧ FlushFailed a.destination t fault

theorem plain_unwritten (t : Transcript) (x : Exchange)
    (h : t.filterMap Exchange.written? = []) (plain : x.call.isPlain) :
    (t ++ [x]).filterMap Exchange.written? = [] := by
  simp [h, (silent_of_plain plain).1.written]

def Accumulator.FlushEnds (a : Accumulator) (destination : Path) (t : Transcript) :
    Except GraphError (Option Path) → Prop
  | .ok written =>
    match a.graph with
    | none => written = none ∧ t.filterMap Exchange.written? = []
    | some g => written = some (graphPath destination) ∧
        Wrote t (graphPath destination) (fileText g).toUTF8
  | .error fault => a.graph.isSome ∧ FlushFailed destination t fault

theorem accumulator_flush_keeps (a : Accumulator) (destination : Path) {t : Transcript}
    (clean : t.filterMap Exchange.written? = []) :
    Keeps (fun _ => True) (a.FlushEnds destination) t (a.flush destination) := by
  unfold Accumulator.flush
  cases graph : a.graph with
  | none => simpa [Keeps, Accumulator.FlushEnds, graph] using clean
  | some g =>
    have wanted : a.graph.isSome := by rw [graph]; rfl
    refine keeps_bind_of (keeps_mono
      (ensureDirectory_keeps plain_unwritten clean destination) (fun _ _ => trivial)
      fun _ _ => id) fun t₁ outcome _ made => ?_
    cases outcome with
    | error above => exact ⟨wanted, made.1, .inl ⟨above, rfl, made.2 above rfl⟩⟩
    | ok _ =>
      refine keeps_bind (keeps_call fun created => ⟨trivial, ?_⟩)
      have unwritten :
          (t₁ ++ [Exchange.mk (.createFile (graphPath destination)) created]).filterMap
            Exchange.written? = [] := by
        simp [made.1, Exchange.written?]
      cases created with
      | error error =>
        exact ⟨wanted, unwritten, .inr ⟨error, rfl, .inl (by simp [graphPath])⟩⟩
      | ok file =>
        refine keeps_bind (keeps_call fun written => ⟨trivial, ?_⟩)
        cases written with
        | error error =>
          refine ⟨wanted, ?_, .inr ⟨error, rfl, .inr ⟨file, (Accumulator.fileText g).toUTF8, ?_⟩⟩⟩
          · simp [made.1, Exchange.written?]
          · simp
        | ok _ =>
          refine keeps_bind (keeps_call (c := .note _) fun noted => ?_)
          refine ⟨trivial, ?_⟩
          change (match a.graph with | none => _ | some g => _)
          rw [graph]
          refine ⟨rfl, file, by simp [graphPath], ?_⟩
          simp only [List.append_assoc, List.filterMap_append, made.1]
          rfl

theorem flush_keeps (a : Aggregator) {t : Transcript}
    (clean : t.filterMap Exchange.written? = []) :
    Keeps (fun _ => True) (FlushEnds a) t a.flush := by
  refine keeps_bind_of (accumulator_flush_keeps a.accumulator a.destination clean)
    fun t₁ outcome _ ends => ?_
  cases outcome with
  | error fault => exact ⟨ends.1, fault, rfl, ends.2⟩
  | ok written => exact ⟨⟨written, rfl⟩, ends⟩

end Course

end ModuleTree
