import ModuleTree.Json.Record
/- What a compiler answers: the text of a module and the modules it requires. -/
namespace ModuleTree

structure Compiled where
  code : String
  dependencies : List String := []
  deriving DecidableEq, Repr

namespace Compiled
open Json

structure Known where
  code : Option String := none
  dependencies : Option (List String) := none

def member (known : Known) (key : String) (s : List Char) : Read Known :=
  if key = "code" then
    match known.code with
    | some _ => .error (repeated "code" s)
    | none =>
      afterColon (fun s =>
        (readString s).map fun (code, rest) => ({ known with code := some code }, rest)) s
  else if key = "dependencies" then
    match known.dependencies with
    | some _ => .error (repeated "dependencies" s)
    | none =>
      afterColon (fun s =>
        (readStringList s).map fun (names, rest) =>
          ({ known with dependencies := some names }, rest)) s
  else ignored known s

theorem member_length_le {known known' : Known} {key : String} {s rest : List Char}
    (h : member known key s = .ok (known', rest)) : rest.length ≤ s.length := by
  unfold member at h
  split at h
  · split at h
    · simp at h
    · refine afterColon_length_le (a := known') ?_ h
      intro s rest a k
      cases string : readString s with
      | error e => simp [string, Except.map] at k
      | ok found =>
        simp only [string, Except.map, Except.ok.injEq, Prod.mk.injEq] at k
        rw [← k.2]
        exact Nat.le_of_lt (readString_length_lt string)
  · split at h
    · split at h
      · simp at h
      · refine afterColon_length_le (a := known') ?_ h
        intro s rest a k
        cases strings : readStringList s with
        | error e => simp [strings, Except.map] at k
        | ok found =>
          simp only [strings, Except.map, Except.ok.injEq, Prod.mk.injEq] at k
          rw [← k.2]
          exact Nat.le_of_lt (readStringList_length_lt strings)
    · exact ignored_length_le h

def members : Members Known := ⟨member, member_length_le⟩

def readObject (s : List Char) : Read Compiled :=
  match members.read true {} s with
  | .error e => .error e
  | .ok (known, rest) =>
    match known.code with
    | none => .error (missing "code" rest)
    | some code => .ok (⟨code, known.dependencies.getD []⟩, pastBrace rest)

def readList (s : List Char) : Read Compiled :=
  match nextElement true s with
  | .error e => .error e
  | .ok none => .error (tooShort 0 "struct CompiledModule with 2 elements" s)
  | .ok (some element) =>
    match readString element with
    | .error e => .error e
    | .ok (code, rest) =>
      match nextElement false rest with
      | .error e => .error e
      | .ok none => .ok (⟨code, []⟩, pastBracket rest)
      | .ok (some element) =>
        match readStringList element with
        | .error e => .error e
        | .ok (names, rest) => (closeList rest).map fun after => (⟨code, names⟩, after)

def read (s : List Char) : Read Compiled :=
  match skipBlank s with
  | [] => .error (.next .endInValue [])
  | c :: rest =>
    if c = '\x7b' then readObject rest
    else if c = '[' then readList rest
    else .error (misplaced "struct CompiledModule" (c :: rest))

def ofJson (text : String) : Except Fault Compiled := readWhole read text

end Compiled

end ModuleTree
