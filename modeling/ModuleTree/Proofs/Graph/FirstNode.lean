import Mathlib
import ModuleTree.Proofs.Graph.ReadBack
import ModuleTree.Proofs.Directory.Unhindered
import ModuleTree.Run.Sequential
/- A graph that is collected and written down again and again. Whatever the surroundings answer
   on the way, it holds the first node that came with each name, and what is written down is the
   graph of that moment. -/
namespace ModuleTree.Accumulator
open Procedure FileSystem

inductive Use where
  | append (name : String) (requires : List String)
  | flush (destination : Path)

inductive Reply where
  | appended (outcome : Except GraphError Unit)
  | flushed (outcome : Except GraphError (Option Path))

namespace Use

def node? : Use → Option (String × List String)
  | append name requires => some (name, requires)
  | flush _ => none

def granted : Use → Reply
  | append _ _ => .appended (.ok ())
  | flush _ => .flushed (.ok none)

/-- One use, and the accumulator after it. A node that is refused is not taken, and writing down
only looks at the graph. -/
def course (a : Accumulator) : Use → Procedure (Reply × Accumulator)
  | append name requires =>
    match a.append name requires, a.remark? name requires with
    | .error e, _ => .done (.appended (.error e), a)
    | .ok taken, none => .done (.appended (.ok ()), taken)
    | .ok taken, some notice => do
      .call (.note notice)
      return (.appended (.ok ()), taken)
  | flush destination => do
    return (.flushed (← a.flush destination), a)

end Use

structure Held (σ : Type) where
  accumulator : Accumulator
  surroundings : σ

section Histories

variable {σ : Type} (answer : Environment σ)

def Held.reply (h : Held σ) (use : Use) : Reply :=
  ((use.course h.accumulator).run answer h.surroundings).1.1

def Held.after (h : Held σ) (use : Use) : Held σ :=
  let ((_, accumulator), surroundings) := (use.course h.accumulator).run answer h.surroundings
  { accumulator, surroundings }

def used (enabled : Bool) (start : σ) (uses : List Use) : Held σ :=
  uses.foldl (Held.after answer) ⟨.new enabled, start⟩

/-- All nodes that were given in these uses, the refused ones among them. -/
def given (uses : List Use) : List (String × List String) := uses.filterMap Use.node?

variable {answer} {start : σ}

theorem used_concat (enabled : Bool) (uses : List Use) (use : Use) :
    used answer enabled start (uses ++ [use]) =
      (used answer enabled start uses).after answer use := by
  simp [used]

theorem append_cases (h : Held σ) (name : String) (requires : List String) :
    (∃ e, h.accumulator.append name requires = .error e ∧
      h.reply answer (.append name requires) = .appended (.error e) ∧
      h.after answer (.append name requires) = h) ∨
    (∃ taken, h.accumulator.append name requires = .ok taken ∧
      h.reply answer (.append name requires) = .appended (.ok ()) ∧
      (h.after answer (.append name requires)).accumulator = taken) := by
  simp only [Held.reply, Held.after, Use.course]
  cases h.accumulator.append name requires with
  | error e => exact .inl ⟨e, rfl, rfl, rfl⟩
  | ok taken => cases h.accumulator.remark? name requires <;> exact .inr ⟨taken, rfl, rfl, rfl⟩

theorem after_flush (h : Held σ) (destination : Path) :
    (h.after answer (.flush destination)).accumulator = h.accumulator := by
  simp only [Held.after, Use.course, run_bind]
  rfl

theorem accumulator_used (uses : List Use) :
    (used answer true start uses).accumulator = collect (given uses) := by
  -- By the last use: `collect` passes over a node that is refused, as the accumulator does.
  induction uses using List.reverseRecOn with
  | nil => rfl
  | append_singleton uses use ih =>
    rw [used_concat, given, List.filterMap_append]
    cases use with
    | append name requires =>
      have longer := collect_concat (given uses) (name, requires)
      rw [← ih] at longer
      refine Eq.trans ?_ longer.symm
      rcases @append_cases σ answer (used answer true start uses) name requires with
        ⟨e, refused, _, same⟩ | ⟨taken, took, _, same⟩
      · rw [same, refused]
        rfl
      · rw [same, took]
        rfl
    | flush destination =>
      rw [after_flush, ih]
      simp [Use.node?, given, List.filterMap_cons]

end Histories

section First

variable {name : String} {requires : List String} {uses : List Use}

/-- The first node of this name that is given comes with these modules. -/
inductive First (name : String) (requires : List String) : List Use → Prop where
  | here (rest : List Use) : First name requires (.append name requires :: rest)
  | later {use : Use} {rest : List Use} (other : ∀ modules, use ≠ .append name modules)
      (first : First name requires rest) : First name requires (use :: rest)

theorem lookup_given : (given uses).lookup name = some requires ↔ First name requires uses := by
  induction uses with
  | nil => exact ⟨nofun, nofun⟩
  | cons use rest ih =>
    cases use with
    | flush destination =>
      refine ih.trans ⟨.later nofun, fun first => ?_⟩
      cases first with
      | later _ first => exact first
    | append other modules =>
      have found : (given (.append other modules :: rest)).lookup name =
          if name = other then some modules else (given rest).lookup name :=
        Dictionary.lookup_cons_ite name (other, modules) (given rest)
      rw [found]
      split
      · rename_i same
        subst same
        refine ⟨fun own => by cases own; exact .here rest, fun first => ?_⟩
        cases first with
        | here => rfl
        | later other => exact absurd rfl (other modules)
      · rename_i differ
        refine ih.trans ⟨.later fun _ same => differ ?_, fun first => ?_⟩
        · cases same
          rfl
        · cases first with
          | here => exact absurd rfl differ
          | later _ first => exact first

theorem mem_of_first (first : First name requires uses) : .append name requires ∈ uses := by
  induction first with
  | here rest => exact List.mem_cons_self
  | later _ _ ih => exact List.mem_cons_of_mem _ ih

theorem first_of_mem {modules : List String} (mem : .append name modules ∈ uses) :
    ∃ requires, First name requires uses := by
  induction uses with
  | nil => cases mem
  | cons use rest ih =>
    by_cases own : ∃ requires, use = .append name requires
    · obtain ⟨requires, rfl⟩ := own
      exact ⟨requires, .here rest⟩
    · have other : ∀ requires, use ≠ .append name requires := not_exists.mp own
      obtain ⟨requires, first⟩ := ih ((List.mem_cons.mp mem).resolve_left (other modules).symm)
      exact ⟨requires, .later other first⟩

end First

section Written

variable {a : Accumulator} {g : Graph} {destination : Path} {written : Option Path} {w : World}

def Shows (fs : FileSystem) (p : Path) (content : ByteArray) : Prop :=
  ∃ id, fs.resolve p = .ok id ∧ fs.isDirectoryNode id = false ∧
    ∀ there, fs.node? id = some (.file there) → there = content

theorem shows_of_createFile {fs fs' : FileSystem} {p : Path} {id : NodeId}
    (created : fs.createFile p = .ok (id, fs')) (content : ByteArray) :
    Shows (fs'.writeNode id content) p content := by
  have grows := grows_of_changes (writeNode_changes fs' id content)
  refine ⟨id, grows.resolve (resolve_of_createFile created), ?_⟩
  rcases node_of_createFile created with empty | ⟨same, plain, other⟩
  · have node : (fs'.writeNode id content).node? id = some (.file content) := by
      rw [writeNode_of_empty empty, node?_setNode, if_pos ⟨rfl, lt_size_of_node? empty⟩]
    refine ⟨by simp [isDirectoryNode, node], fun there found => ?_⟩
    cases node.symm.trans found
    rfl
  · -- Neither creating nor writing touches what is no regular file.
    rcases writeNode_cases fs' id content with ⟨there, found, _⟩ | ⟨none, still⟩
    · exact absurd (same ▸ found) (other there)
    · rw [still]
      exact ⟨same ▸ plain, fun there found => absurd found (none there)⟩

theorem shows_of_flush (graph : a.graph = some g)
    (done : (w.perform (a.flush destination)).1 = .ok written) :
    written = some (graphPath destination) ∧
      Shows (w.perform (a.flush destination)).2.files (graphPath destination)
        (fileText g).toUTF8 := by
  rw [World.perform, flush, graph] at done ⊢
  simp only [run_bind] at done ⊢
  generalize (ensureDirectory destination).run World.answer w = made at done ⊢
  obtain ⟨outcome, w'⟩ := made
  cases outcome with
  | error e => cases done
  | ok _ =>
    simp only [run_bind, run, call, World.answer] at done ⊢
    cases created : w'.files.createFile (destination.child fileName) with
    | error e =>
      simp only [created, World.changing] at done
      cases done
    | ok file =>
      simp only [created, World.changing] at done ⊢
      cases done
      exact ⟨rfl, shows_of_createFile created _⟩

/-- Writing a graph down: however the calls are answered, it succeeds only with one write, of the
whole text, to the place of the graph; then that place shows the text; and the text is one of this
graph only. -/
structure Writes (a : Accumulator) (g : Graph) : Prop where
  once : ∀ destination, Keeps (fun _ => True)
    (fun t outcome => ∀ written, outcome = .ok written →
      written = some (graphPath destination) ∧
        Wrote t (graphPath destination) (fileText g).toUTF8) [] (a.flush destination)
  shown : ∀ destination (w : World) written,
    (w.perform (a.flush destination)).1 = .ok written →
      written = some (graphPath destination) ∧
        Shows (w.perform (a.flush destination)).2.files (graphPath destination)
          (fileText g).toUTF8
  told : Graph.ofJson (fileText g) = .ok g

theorem writes_of_graph (graph : a.graph = some g) : a.Writes g where
  once destination := by
    refine keeps_mono (accumulator_flush_keeps a destination rfl) (fun _ => id) ?_
    intro t outcome ends written same
    subst same
    simpa only [FlushEnds, graph] using ends
  shown _ _ _ := shows_of_flush graph
  told := g.ofJson_fileText

end Written

section Permuted

variable {nodes others : List (String × List String)}

theorem collect_of_nodup (distinct : (nodes.map Prod.fst).Nodup) :
    collect nodes = .ofNodes true nodes := by
  induction nodes using List.reverseRecOn with
  | nil => rfl
  | append_singleton nodes node ih =>
    rw [List.map_append, List.nodup_append] at distinct
    have fresh : node.1 ∉ nodes.map Prod.fst := fun mem =>
      distinct.2.2 node.1 mem node.1 (by simp) rfl
    rw [collect_concat, ih distinct.1, append_ofNodes, if_neg fresh]
    rfl

theorem collect_perm (perm : nodes.Perm others) (distinct : (nodes.map Prod.fst).Nodup) :
    collect others = collect nodes := by
  have distinct' : (others.map Prod.fst).Nodup := (perm.map Prod.fst).nodup_iff.mp distinct
  have same : Dictionary.ofList others = Dictionary.ofList nodes :=
    Dictionary.eq_of_perm <| (Dictionary.ofList_perm distinct').trans <|
      perm.symm.trans (Dictionary.ofList_perm distinct).symm
  rw [collect_of_nodup distinct, collect_of_nodup distinct', ofNodes, ofNodes, same]

end Permuted

section Uses

variable {σ : Type} {answer : Environment σ}

theorem after_disabled (start : σ) (use : Use) :
    Held.after answer ⟨.new false, start⟩ use = ⟨.new false, start⟩ := by
  cases use <;> rfl

theorem used_disabled (start : σ) (uses : List Use) :
    used answer false start uses = ⟨.new false, start⟩ := by
  induction uses with
  | nil => rfl
  | cons use rest ih =>
    rw [used, List.foldl_cons, after_disabled]
    exact ih

/-- A graph after uses of its accumulator: it holds the first node of each name, a node that comes
with a name of these is refused and changes nothing at all, and any other one is taken. Writing the
graph down leaves it as it is. -/
structure KeepsFirst (answer : Environment σ) (start : σ) (uses : List Use) : Prop where
  graph : ∃ g, (used answer true start uses).accumulator.graph = some g ∧
    (∀ name requires, g.get? name = some requires ↔ First name requires uses) ∧
    (used answer true start uses).accumulator.Writes g
  taken : ∀ name requires, (∀ modules, .append name modules ∉ uses) →
    (used answer true start uses).reply answer (.append name requires) = .appended (.ok ())
  refused : ∀ name requires modules, .append name modules ∈ uses →
    (used answer true start uses).reply answer (.append name requires) =
        .appended (.error (.duplicateModule name)) ∧
      used answer true start (uses ++ [.append name requires]) = used answer true start uses
  flushed : ∀ destination,
    (used answer true start (uses ++ [.flush destination])).accumulator =
      (used answer true start uses).accumulator

theorem keepsFirst_used (answer : Environment σ) (start : σ) (uses : List Use) :
    KeepsFirst answer start uses := by
  obtain ⟨g, collected, lookups⟩ := collect_graph (given uses)
  have graph : (used answer true start uses).accumulator.graph = some g :=
    (congrArg Accumulator.graph (accumulator_used uses)).trans collected
  have holds (name : String) (requires : List String) :
      g.get? name = some requires ↔ First name requires uses := by
    rw [lookups, lookup_given]
  refine ⟨⟨g, graph, holds, writes_of_graph graph⟩, ?_, ?_, fun destination => ?_⟩
  · intro name requires fresh
    have missing : g.get? name = none := Option.eq_none_iff_forall_ne_some.mpr fun modules found =>
      fresh modules (mem_of_first ((holds name modules).mp found))
    rcases append_cases (used answer true start uses) name requires with
      ⟨e, refused, _⟩ | ⟨_, _, reply, _⟩
    · simp [append, graph, missing] at refused
    · exact reply
  · intro name requires modules mem
    obtain ⟨first, found⟩ := first_of_mem mem
    rw [used_concat]
    rcases append_cases (used answer true start uses) name requires with
      ⟨e, refused, reply, same⟩ | ⟨taken, took, _⟩
    · obtain rfl : .duplicateModule name = e := by
        simpa [append, graph, (holds name first).mpr found] using refused
      exact ⟨reply, same⟩
    · simp [append, graph, (holds name first).mpr found] at took
  · rw [used_concat, after_flush]

/-- However an accumulator is used, and whatever its surroundings answer, it keeps the first node of
each name. Without a graph it grants everything and does nothing. Nodes of distinct names make the
same graph in whatever order they come. -/
theorem first_node_of_each_name_kept (answer : Environment σ) (start : σ) (uses : List Use) :
    KeepsFirst answer start uses ∧
      (used answer false start uses = ⟨.new false, start⟩ ∧
        ∀ use, (used answer false start uses).reply answer use = use.granted) ∧
      ∀ (answer' : Environment σ) (start' : σ) (others : List Use),
        (given uses).Perm (given others) → ((given uses).map Prod.fst).Nodup →
          (used answer' true start' others).accumulator =
            (used answer true start uses).accumulator := by
  refine ⟨keepsFirst_used answer start uses, ⟨used_disabled start uses, fun use => ?_⟩, ?_⟩
  · rw [used_disabled]
    cases use <;> rfl
  · intro answer' start' others perm distinct
    rw [accumulator_used, accumulator_used, collect_perm perm distinct]

def twiceAndOnce : List Use :=
  [.append "a" ["b"], .flush (.ofString "f"), .append "a" [], .flush (.ofString "out"),
    .append "b" []]

def besideFile (uses : List Use) : Held World :=
  used World.answer true (World.holding World.holdingFile) uses

theorem first_nodes_kept_past_failed_flush :
    KeepsFirst World.answer (World.holding World.holdingFile) twiceAndOnce ∧
      (besideFile twiceAndOnce).accumulator.graph.map Dictionary.entries =
        some [("a", ["b"]), ("b", [])] ∧
      (besideFile (twiceAndOnce.take 1)).reply World.answer (.flush (.ofString "f")) =
        .flushed (.error (.write (.ofString "f/graph.json") .notADirectory)) ∧
      (besideFile (twiceAndOnce.take 3)).reply World.answer (.flush (.ofString "out")) =
        .flushed (.ok (some (.ofString "out/graph.json"))) ∧
      (besideFile [.append "b" [], .append "a" ["b"]]).accumulator =
        (besideFile [.append "a" ["b"], .append "b" []]).accumulator := by
  refine ⟨(first_node_of_each_name_kept _ _ _).1, by cbv, by cbv, by cbv, ?_⟩
  exact (first_node_of_each_name_kept _ _ _).2.2 _ _ _ (List.Perm.swap ("b", []) ("a", ["b"]) [])
    (by decide)

end Uses

end ModuleTree.Accumulator
