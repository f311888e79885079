import ModuleTree.Dictionary
import ModuleTree.Json.Record
import ModuleTree.Json.Printer
/- The dependency graph: which modules each module requires. -/
namespace ModuleTree

abbrev Graph := Dictionary (List String)

namespace Graph
open Json

def writeNode (requires : List String) : List Char :=
  writeItems '\x7b' '\x7d' 1 [writeMember "requires" (writeStrings 2 requires)]

def toJson (g : Graph) : String :=
  String.ofList (writeItems '\x7b' '\x7d' 0
    (g.entries.map fun entry => writeMember entry.1 (writeNode entry.2)))

def nodeMember (requires : Option (List String)) (key : String) (s : List Char) :
    Read (Option (List String)) :=
  if key = "requires" then
    match requires with
    | some _ => .error (repeated "requires" s)
    | none =>
      afterColon (fun s => (readStringList s).map fun (names, rest) => (some names, rest)) s
  else ignored requires s

theorem nodeMember_length_le {requires requires' : Option (List String)} {key : String}
    {s rest : List Char} (h : nodeMember requires key s = .ok (requires', rest)) :
    rest.length ≤ s.length := by
  unfold nodeMember at h
  split at h
  · split at h
    · simp at h
    · refine afterColon_length_le (a := requires') ?_ h
      intro s rest a k
      cases strings : readStringList s with
      | error e => simp [strings, Except.map] at k
      | ok found =>
        simp only [strings, Except.map, Except.ok.injEq, Prod.mk.injEq] at k
        rw [← k.2]
        exact Nat.le_of_lt (readStringList_length_lt strings)
  · exact ignored_length_le h

def nodeMembers : Members (Option (List String)) := ⟨nodeMember, nodeMember_length_le⟩

def readNode (s : List Char) : Read (List String) :=
  match skipBlank s with
  | [] => .error (.next .endInValue [])
  | c :: rest =>
    if c = '\x7b' then
      match nodeMembers.read true none rest with
      | .error e => .error e
      | .ok (none, rest) => .error (missing "requires" rest)
      | .ok (some names, rest) => .ok (names, pastBrace rest)
    else if c = '[' then
      match nextElement true rest with
      | .error e => .error e
      | .ok none => .error (tooShort 0 "struct ModuleNode with 1 element" rest)
      | .ok (some element) =>
        match readStringList element with
        | .error e => .error e
        | .ok (names, rest) => (closeList rest).map fun after => (names, after)
    else .error (misplaced "struct ModuleNode" (c :: rest))

theorem pastBrace_length_le (s : List Char) : (pastBrace s).length ≤ s.length := by
  have bound := skipBlank_length_le s
  unfold pastBrace
  split
  · simp
  · rename_i c rest eq
    rw [eq, List.length_cons] at bound
    split
    · omega
    · simpa using bound

theorem readNode_length_le {s rest : List Char} {names : List String}
    (h : readNode s = .ok (names, rest)) : rest.length ≤ s.length := by
  have bound := skipBlank_length_le s
  unfold readNode at h
  split at h
  · simp at h
  · rename_i c tail eq
    rw [eq, List.length_cons] at bound
    split at h
    · split at h
      · simp at h
      · simp at h
      · rename_i found more members
        have := nodeMembers.read_length_le members
        have := pastBrace_length_le more
        simp only [Except.ok.injEq, Prod.mk.injEq] at h
        rw [← h.2]
        omega
    · split at h
      · split at h
        · simp at h
        · simp at h
        · rename_i element next
          have := nextElement_length_le next
          split at h
          · simp at h
          · rename_i found more strings
            have := readStringList_length_lt strings
            cases close : closeList more with
            | error e => simp [close, Except.map] at h
            | ok after =>
              simp only [close, Except.map, Except.ok.injEq, Prod.mk.injEq] at h
              have := closeList_length_lt close
              rw [← h.2]
              omega
      · simp at h

def graphMember (g : Graph) (key : String) (s : List Char) : Read Graph :=
  afterColon (fun s => (readNode s).map fun (names, rest) => (g.insert key names, rest)) s

theorem graphMember_length_le {g g' : Graph} {key : String} {s rest : List Char}
    (h : graphMember g key s = .ok (g', rest)) : rest.length ≤ s.length := by
  refine afterColon_length_le (a := g') ?_ h
  intro s rest a k
  cases node : readNode s with
  | error e => simp [node, Except.map] at k
  | ok found =>
    simp only [node, Except.map, Except.ok.injEq, Prod.mk.injEq] at k
    rw [← k.2]
    exact readNode_length_le node

def graphMembers : Members Graph := ⟨graphMember, graphMember_length_le⟩

/-- A module named twice has the list that stands last. -/
def read (s : List Char) : Read Graph :=
  match skipBlank s with
  | [] => .error (.next .endInValue [])
  | c :: rest =>
    if c = '\x7b' then
      (graphMembers.read true .empty rest).map fun (g, rest) => (g, pastBrace rest)
    else .error (misplaced "a map" (c :: rest))

def ofJson (text : String) : Except Fault Graph := readWhole read text

end Graph

end ModuleTree
