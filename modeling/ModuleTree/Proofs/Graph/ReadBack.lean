import ModuleTree.Proofs.Json.RoundTrip
import ModuleTree.Proofs.Text.ByteOrder
import ModuleTree.Proofs.Run.ListenerCourse
/- The text of a dependency graph holds the graph: read as a graph it gives the same one, and
   its members are the nodes, one for each name, in the order of the names' bytes. -/
namespace ModuleTree

theorem Text.decode_toUTF8 (text : String) : Text.decode text.toUTF8 = .ok text := by
  have back : String.fromUTF8? text.toUTF8 = some text := dif_pos text.isValidUTF8
  rw [Text.decode, back]

namespace Graph
open Json

variable {s : List Char}

theorem readNode_writeNode (requires : List String) :
    readNode (' ' :: (writeNode requires ++ s)) = .ok (requires, s) := by
  have member (s : List Char) : nodeMembers.member none "requires"
      (':' :: ' ' :: (writeStrings 2 requires ++ s)) = .ok (some requires, s) := by
    have own : nodeMembers.member = nodeMember := rfl
    rw [own, nodeMember, if_pos rfl]
    simp [afterColon, skipColon, skipBlank_plain (c := ':') (by decide),
      readStringList_writeStrings, Except.map]
  have read : nodeMembers.read true none
      (rows true 1 [writeMember "requires" (writeStrings 2 requires)] ++ '\x7d' :: s) =
        .ok (some requires, rows false 1 [] ++ '\x7d' :: s) := by
    rw [rows_cons, List.append_assoc, List.append_assoc, Members.read_row (member _)]
    exact Members.read_of_none nextKey_close
  rw [writeNode, writeItems_eq, readNode, skipBlank_blank (by decide), List.cons_append,
    skipBlank_plain (by decide), List.append_assoc, List.singleton_append]
  simp only [if_true, read, pastBrace_close]

theorem graphMember_writeNode (g : Graph) (entry : String × List String) (s : List Char) :
    graphMember g entry.1 (':' :: ' ' :: (writeNode entry.2 ++ s)) =
      .ok (g.insert entry.1 entry.2, s) := by
  rw [graphMember, afterColon, skipColon, skipBlank_plain (by decide)]
  simp [readNode_writeNode, Except.map]

theorem read_rows {σ : Type} {m : Members σ} {keep : σ → String × List String → σ}
    (keeps : ∀ state entry s, m.member state entry.1 (':' :: ' ' :: (writeNode entry.2 ++ s)) =
      .ok (keep state entry, s))
    (first : Bool) (state : σ) (entries : List (String × List String)) :
    ∃ left, m.read first state
        (rows first 0 (entries.map fun e => writeMember e.1 (writeNode e.2)) ++ '\x7d' :: s) =
      .ok (entries.foldl keep state, left) ∧ pastBrace left = s := by
  induction entries generalizing first state with
  | nil => exact ⟨_, Members.read_of_none nextKey_close, pastBrace_close⟩
  | cons entry entries ih =>
    obtain ⟨left, rest, past⟩ := ih false (keep state entry)
    refine ⟨left, ?_, past⟩
    rw [List.map_cons, rows_cons, List.append_assoc, List.append_assoc,
      Members.read_row (keeps state entry _), rest]
    rfl

def readMap {σ : Type} (m : Members σ) (start : σ) (s : List Char) : Read σ :=
  match skipBlank s with
  | [] => .error (.next .endInValue [])
  | c :: rest =>
    if c = '\x7b' then (m.read true start rest).map fun (found, rest) => (found, pastBrace rest)
    else .error (misplaced "a map" (c :: rest))

theorem readMap_graphMembers : readMap graphMembers .empty = Graph.read := rfl

theorem readMap_fileText {σ : Type} {m : Members σ} {keep : σ → String × List String → σ}
    (keeps : ∀ state entry s, m.member state entry.1 (':' :: ' ' :: (writeNode entry.2 ++ s)) =
      .ok (keep state entry, s))
    (start : σ) (g : Graph) :
    readWhole (readMap m start) (Accumulator.fileText g) = .ok (g.entries.foldl keep start) := by
  obtain ⟨left, read, past⟩ := read_rows keeps (s := ['\n']) true start g.entries
  have text : (Accumulator.fileText g).toList = '\x7b' ::
      (rows true 0 (g.entries.map fun e => writeMember e.1 (writeNode e.2)) ++ ['\x7d', '\n']) := by
    simp [Accumulator.fileText, toJson, writeItems_eq]
  have whole : readMap m start (Accumulator.fileText g).toList =
      .ok (g.entries.foldl keep start, ['\n']) := by
    rw [text, readMap, skipBlank_plain (by decide)]
    simp only [if_true, read, Except.map, past]
  rw [readWhole, whole]
  rfl

theorem ofJson_fileText (g : Graph) : ofJson (Accumulator.fileText g) = .ok g := by
  rw [ofJson, ← readMap_graphMembers, readMap_fileText graphMember_writeNode]
  exact congrArg Except.ok (Dictionary.ofList_entries g)

/-- A member on its own, behind those that stand before it. None is dropped for its name. -/
def listMember (before : List (String × List String)) (key : String) (s : List Char) :
    Read (List (String × List String)) :=
  (graphMember .empty key s).map fun (g, rest) => (before ++ g.entries, rest)

theorem listMember_length_le {before after : List (String × List String)} {key : String}
    {s rest : List Char} (h : listMember before key s = .ok (after, rest)) :
    rest.length ≤ s.length := by
  rw [listMember] at h
  cases member : graphMember .empty key s with
  | error e => simp [member, Except.map] at h
  | ok found =>
    simp only [member, Except.map, Except.ok.injEq, Prod.mk.injEq] at h
    rw [← h.2]
    exact graphMember_length_le member

def listed (text : String) : Except Fault (List (String × List String)) :=
  readWhole (readMap ⟨listMember, listMember_length_le⟩ []) text

theorem listed_fileText (g : Graph) : listed (Accumulator.fileText g) = .ok g.entries := by
  have keeps (before : List (String × List String)) (entry : String × List String) (s : List Char) :
      listMember before entry.1 (':' :: ' ' :: (writeNode entry.2 ++ s)) =
        .ok (before ++ [entry], s) := by
    rw [listMember, graphMember_writeNode]
    rfl
  have all (before entries : List (String × List String)) :
      entries.foldl (fun before entry => before ++ [entry]) before = before ++ entries := by
    induction entries generalizing before with
    | nil => simp
    | cons entry entries ih => rw [List.foldl_cons, ih, List.append_assoc, List.singleton_append]
  rw [listed, readMap_fileText keeps, all, List.nil_append]

theorem fileText_injective {g h : Graph} (same : Accumulator.fileText g = Accumulator.fileText h) :
    g = h := by
  have read : (Except.ok g : Except Fault Graph) = .ok h := by
    rw [← ofJson_fileText g, ← ofJson_fileText h, same]
  exact Except.ok.inj read

end Graph

namespace Accumulator
open Procedure

/-- An enabled accumulator to which these nodes were given. One that it refuses changes nothing. -/
def collect (nodes : List (String × List String)) : Accumulator :=
  nodes.foldl (fun a node => (a.append node.1 node.2).toOption.getD a) (.new true)

theorem collect_concat (nodes : List (String × List String)) (node : String × List String) :
    collect (nodes ++ [node]) =
      ((collect nodes).append node.1 node.2).toOption.getD (collect nodes) := by
  simp [collect]

theorem collect_graph (nodes : List (String × List String)) :
    ∃ g, (collect nodes).graph = some g ∧ ∀ name, g.get? name = nodes.lookup name := by
  induction nodes using List.reverseRecOn with
  | nil => exact ⟨.empty, rfl, fun _ => rfl⟩
  | append_singleton nodes node ih =>
    obtain ⟨g, graph, holds⟩ := ih
    have lookup (name : String) : (nodes ++ [node]).lookup name =
        (g.get? name).or (if name = node.1 then some node.2 else none) := by
      rw [List.lookup_append, ← holds, Dictionary.lookup_cons_ite, List.lookup_nil]
    rw [collect_concat, append, graph]
    by_cases taken : (g.get? node.1).isSome
    · refine ⟨g, by simp [taken, graph, Except.toOption], fun name => ?_⟩
      rw [lookup]
      by_cases here : name = node.1
      · obtain ⟨list, found⟩ := Option.isSome_iff_exists.mp taken
        simp [here, found]
      · simp [here]
    · refine ⟨g.insert node.1 node.2, by simp [taken, Except.toOption], fun name => ?_⟩
      rw [lookup, Dictionary.get?_insert]
      by_cases here : name = node.1
      · simp [here, Option.not_isSome_iff_eq_none.mp taken]
      · simp [here]

theorem flush_asks {a : Accumulator} {g : Graph} (graph : a.graph = some g) (destination : Path) :
    (a.flush destination).Asks fun call =>
      ∀ file bytes, call = .writeFile file bytes → bytes = (fileText g).toUTF8 := by
  rw [flush, graph]
  refine asks_bind (ensureDirectory_asks ?_ destination) fun outcome => ?_
  · intro call plain file bytes same
    simp [same, Call.isPlain] at plain
  · cases outcome with
    | error e => trivial
    | ok _ =>
      refine asks_bind (asks_call (by simp)) fun created => ?_
      cases created with
      | error e => trivial
      | ok file =>
        refine asks_bind (asks_call (by simp)) fun written => ?_
        cases written with
        | error e => trivial
        | ok _ => exact asks_bind (asks_call (by simp)) fun _ => trivial

theorem fails_of_blames {x : Exchange} {e : StreamError} (plain : x.call.isPlain)
    (blames : Blames x e) : x.Fails := by
  cases blames with
  | directory p e => exact .makeDirectory p e
  | _ => cases plain

theorem flush_unfailing {a : Accumulator} {g : Graph} (graph : a.graph = some g)
    (destination : Path) :
    Keeps (fun _ => True) (fun t outcome => (∀ x ∈ t, ¬x.Fails) →
      outcome = .ok (some (graphPath destination))) [] (a.flush destination) := by
  have plain (t : Transcript) (x : Exchange) (all : ∀ y ∈ t, y.call.isPlain)
      (here : x.call.isPlain) : ∀ y ∈ t ++ [x], y.call.isPlain :=
    forall_concat all here
  have made := ensureDirectory_keeps plain (t := []) (by simp) destination
  rw [flush, graph]
  refine keeps_bind_of (keeps_mono made (fun _ _ => trivial) fun _ _ => id)
    fun t outcome _ made => ?_
  cases outcome with
  | error e =>
    intro unfailing
    obtain ⟨x, mem, blames⟩ := made.2 e rfl
    exact absurd (fails_of_blames (made.1 x mem) blames) (unfailing x mem)
  | ok _ =>
    refine keeps_bind (keeps_call fun created => ⟨trivial, ?_⟩)
    cases created with
    | error e =>
      intro unfailing
      have there := unfailing _ (List.mem_append_right t List.mem_cons_self)
      exact absurd (.createFile _ e) there
    | ok file =>
      refine keeps_bind (keeps_call fun written => ⟨trivial, ?_⟩)
      cases written with
      | error e =>
        intro unfailing
        have there := unfailing _ (List.mem_append_right _ List.mem_cons_self)
        exact absurd (.writeFile file _ e) there
      | ok _ => exact keeps_bind (keeps_call (c := .note _) fun _ => ⟨trivial, fun _ => rfl⟩)

/-- The text that is written for what was collected reads back as it, and it is written wherever no
call fails. -/
theorem graph_file_decodes_to_graph (nodes : List (String × List String)) (destination : Path) :
    ∃ g, (collect nodes).graph = some g ∧ (∀ name, g.get? name = nodes.lookup name) ∧
      (((collect nodes).flush destination).Asks fun call =>
        ∀ file bytes, call = .writeFile file bytes → bytes = (fileText g).toUTF8) ∧
      Keeps (fun _ => True)
        (fun t outcome => ∀ written, outcome = .ok written →
          written = some (graphPath destination) ∧
            Wrote t (graphPath destination) (fileText g).toUTF8)
        [] ((collect nodes).flush destination) ∧
      Keeps (fun _ => True) (fun t outcome => (∀ x ∈ t, ¬x.Fails) →
        outcome = .ok (some (graphPath destination))) [] ((collect nodes).flush destination) ∧
      Text.decode (fileText g).toUTF8 = .ok (fileText g) ∧
      Graph.ofJson (fileText g) = .ok g ∧
      Graph.listed (fileText g) = .ok g.entries ∧
      g.entries.Pairwise (fun a b => Text.encode a.1 < Text.encode b.1) ∧
      ∀ other : Graph, fileText other = fileText g → other = g := by
  obtain ⟨g, graph, holds⟩ := collect_graph nodes
  refine ⟨g, graph, holds, flush_asks graph destination, ?_, flush_unfailing graph destination,
    Text.decode_toUTF8 _, g.ofJson_fileText, g.listed_fileText, g.ascending.imp Text.encode_lt,
    fun _ => Graph.fileText_injective⟩
  refine keeps_mono (accumulator_flush_keeps _ destination rfl) (fun _ => id) ?_
  intro t outcome ends written same
  subst same
  simpa only [FlushEnds, graph] using ends

end Accumulator

end ModuleTree
