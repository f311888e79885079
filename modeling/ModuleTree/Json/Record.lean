import ModuleTree.Json.Skip
import ModuleTree.Text.Quoted
/- Strings, lists and records of JSON, read as what they are meant to be. A record is
   written as an object, or as a list of its fields in order. -/
namespace ModuleTree.Json

def misfit (found expected : String) : Problem := .unfit s!"invalid type: {found}, expected {expected}"

def misplaced (expected : String) (s : List Char) : Fault :=
  let word (letters : List Char) (found : String) (rest : List Char) : Fault :=
    match skipWord letters rest with
    | .error e => e
    | .ok after => ⟨misfit found expected, after, 0⟩
  let number (negative : Bool) (rest : List Char) : Fault :=
    match readNumber negative rest with
    | .error e => e
    | .ok (n, after) => ⟨misfit n.description expected, after, 0⟩
  match s with
  | [] => .next .expectedValue []
  | c :: rest =>
    if c = 'n' then word ['u', 'l', 'l'] "null" rest
    else if c = 't' then word ['r', 'u', 'e'] "boolean `true`" rest
    else if c = 'f' then word ['a', 'l', 's', 'e'] "boolean `false`" rest
    else if c = '-' then number true rest
    else if isDigit c then number false (c :: rest)
    else if c = '"' then
      match readChars [] rest with
      | .error e => e
      | .ok (text, after) => ⟨misfit s!"string {Text.quoted text}" expected, after, 0⟩
    else if c = '[' then ⟨misfit "sequence" expected, c :: rest, 0⟩
    else if c = '\x7b' then ⟨misfit "map" expected, c :: rest, 0⟩
    else .next .expectedValue (c :: rest)

def readString (s : List Char) : Read String :=
  match skipBlank s with
  | [] => .error (.next .endInValue [])
  | c :: rest => if c = '"' then readChars [] rest else .error (misplaced "a string" (c :: rest))

theorem readString_length_lt {s rest : List Char} {text : String}
    (h : readString s = .ok (text, rest)) : rest.length < s.length := by
  have bound := skipBlank_length_le s
  unfold readString at h
  split at h
  · simp at h
  · rename_i c tail eq
    rw [eq, List.length_cons] at bound
    split at h
    · have := readChars_length_lt h
      omega
    · simp at h

def nextElement (first : Bool) (s : List Char) : Except Fault (Option (List Char)) :=
  match skipBlank s with
  | [] => .error (.next .endInList [])
  | c :: rest =>
    if c = ']' then .ok none
    else if first then .ok (some (c :: rest))
    else if c = ',' then
      match skipBlank rest with
      | [] => .error (.next .endInValue [])
      | d :: more =>
        if d = ']' then .error (.next .trailingComma (d :: more)) else .ok (some (d :: more))
    else .error (.next .expectedListEnd (c :: rest))

theorem nextElement_length_le {first : Bool} {s rest : List Char}
    (h : nextElement first s = .ok (some rest)) : rest.length ≤ s.length := by
  have bound := skipBlank_length_le s
  unfold nextElement at h
  split at h
  · simp at h
  · rename_i c tail eq
    rw [eq, List.length_cons] at bound
    split at h
    · simp at h
    · split at h
      · simp only [Except.ok.injEq, Option.some.injEq] at h
        subst h
        simp only [List.length_cons]
        omega
      · split at h
        · have inner := skipBlank_length_le tail
          split at h
          · simp at h
          · rename_i d more eq
            rw [eq, List.length_cons] at inner
            split at h
            · simp at h
            · simp only [Except.ok.injEq, Option.some.injEq] at h
              subst h
              simp only [List.length_cons]
              omega
        · simp at h

def readStrings (first : Bool) (read : List String) (s : List Char) : Read (List String) :=
  match _h : nextElement first s with
  | .error e => .error e
  | .ok none => .ok (read.reverse, s)
  | .ok (some element) =>
    match _k : readString element with
    | .error e => .error e
    | .ok (text, rest) => readStrings false (text :: read) rest
  termination_by s.length
  decreasing_by
    have := nextElement_length_le _h
    have := readString_length_lt _k
    omega

theorem readStrings_length_le {first : Bool} {read texts : List String} {s rest : List Char}
    (h : readStrings first read s = .ok (texts, rest)) : rest.length ≤ s.length := by
  fun_induction readStrings first read s with
  | case1 => simp at h
  | case2 first read s close =>
    simp only [Except.ok.injEq, Prod.mk.injEq] at h
    exact Nat.le_of_eq (congrArg List.length h.2.symm)
  | case3 => simp at h
  | case4 first read s element next text more string ih =>
    have := nextElement_length_le next
    have := readString_length_lt string
    have := ih h
    omega

def closeList (s : List Char) : Except Fault (List Char) :=
  match skipBlank s with
  | [] => .error (.next .endInList [])
  | c :: rest =>
    if c = ']' then .ok rest
    else if c = ',' then
      match skipBlank rest with
      | [] => .error (.next .trailingCharacters [])
      | d :: more =>
        .error (.next (if d = ']' then .trailingComma else .trailingCharacters) (d :: more))
    else .error (.next .trailingCharacters (c :: rest))

theorem closeList_length_lt {s rest : List Char} (h : closeList s = .ok rest) :
    rest.length < s.length := by
  have bound := skipBlank_length_le s
  unfold closeList at h
  split at h
  · simp at h
  · rename_i c tail eq
    rw [eq, List.length_cons] at bound
    split at h
    · simp only [Except.ok.injEq] at h
      subst h
      omega
    · split at h
      · split at h <;> simp at h
      · simp at h

def readStringList (s : List Char) : Read (List String) :=
  match skipBlank s with
  | [] => .error (.next .endInValue [])
  | c :: rest =>
    if c = '[' then
      match readStrings true [] rest with
      | .error e => .error e
      | .ok (texts, rest) => (closeList rest).map fun after => (texts, after)
    else .error (misplaced "a sequence" (c :: rest))

theorem readStringList_length_lt {s rest : List Char} {texts : List String}
    (h : readStringList s = .ok (texts, rest)) : rest.length < s.length := by
  have bound := skipBlank_length_le s
  unfold readStringList at h
  split at h
  · simp at h
  · rename_i c tail eq
    rw [eq, List.length_cons] at bound
    split at h
    · split at h
      · simp at h
      · rename_i found more strings
        have := readStrings_length_le strings
        cases close : closeList more with
        | error e => simp [close, Except.map] at h
        | ok after =>
          simp only [close, Except.map, Except.ok.injEq, Prod.mk.injEq] at h
          have := closeList_length_lt close
          rw [h.2] at this
          omega
    · simp at h

def nextKey (first : Bool) (s : List Char) : Except Fault (Option (List Char)) :=
  match skipBlank s with
  | [] => .error (.next .endInObject [])
  | c :: rest =>
    if c = '\x7d' then .ok none
    else if first then
      if c = '"' then .ok (some rest) else .error (.next .keyNotString (c :: rest))
    else if c = ',' then
      match skipBlank rest with
      | [] => .error (.next .endInValue [])
      | d :: more =>
        if d = '"' then .ok (some more)
        else .error (.next (if d = '\x7d' then .trailingComma else .keyNotString) (d :: more))
    else .error (.next .expectedObjectEnd (c :: rest))

theorem nextKey_length_lt {first : Bool} {s rest : List Char}
    (h : nextKey first s = .ok (some rest)) : rest.length < s.length := by
  have bound := skipBlank_length_le s
  unfold nextKey at h
  split at h
  · simp at h
  · rename_i c tail eq
    rw [eq, List.length_cons] at bound
    split at h
    · simp at h
    · split at h
      · split at h
        · simp only [Except.ok.injEq, Option.some.injEq] at h
          subst h
          omega
        · simp at h
      · split at h
        · have inner := skipBlank_length_le tail
          split at h
          · simp at h
          · rename_i d more eq
            rw [eq, List.length_cons] at inner
            split at h
            · simp only [Except.ok.injEq, Option.some.injEq] at h
              subst h
              omega
            · simp at h
        · simp at h

/-- How the members of an object are taken up: `member` gets the key and the text behind
it, and leaves no more text than it got. -/
structure Members (σ : Type) where
  member : σ → String → List Char → Read σ
  member_length_le : ∀ {state state' : σ} {key : String} {s rest : List Char},
    member state key s = .ok (state', rest) → rest.length ≤ s.length

def Members.read {σ : Type} (m : Members σ) (first : Bool) (state : σ) (s : List Char) : Read σ :=
  match _h : nextKey first s with
  | .error e => .error e
  | .ok none => .ok (state, s)
  | .ok (some key) =>
    match _k : readChars [] key with
    | .error e => .error e
    | .ok (name, rest) =>
      match _l : m.member state name rest with
      | .error e => .error e
      | .ok (state, rest) => m.read false state rest
  termination_by s.length
  decreasing_by
    have := nextKey_length_lt _h
    have := readChars_length_lt _k
    have := m.member_length_le _l
    omega

theorem Members.read_length_le {σ : Type} {m : Members σ} {first : Bool} {state state' : σ}
    {s rest : List Char} (h : m.read first state s = .ok (state', rest)) :
    rest.length ≤ s.length := by
  fun_induction Members.read m first state s with
  | case1 => simp at h
  | case2 first state s close =>
    simp only [Except.ok.injEq, Prod.mk.injEq] at h
    exact Nat.le_of_eq (congrArg List.length h.2.symm)
  | case3 => simp at h
  | case4 => simp at h
  | case5 first state s key next name more chars state rest member ih =>
    have := nextKey_length_lt next
    have := readChars_length_lt chars
    have := m.member_length_le member
    have := ih h
    omega

def pastBrace (s : List Char) : List Char :=
  match skipBlank s with
  | [] => []
  | c :: rest => if c = '\x7d' then rest else c :: rest

def pastBracket (s : List Char) : List Char :=
  match skipBlank s with
  | [] => []
  | c :: rest => if c = ']' then rest else c :: rest

def afterColon {α : Type} (read : List Char → Read α) (s : List Char) : Read α :=
  match skipColon s with
  | .error e => .error e
  | .ok rest => read rest

def ignored {σ : Type} (state : σ) (s : List Char) : Read σ :=
  afterColon (fun rest => (skipValue rest).map fun after => (state, after)) s

def repeated (field : String) (s : List Char) : Fault :=
  ⟨.unfit s!"duplicate field `{field}`", pastBrace s, 0⟩

def missing (field : String) (s : List Char) : Fault :=
  ⟨.unfit s!"missing field `{field}`", pastBrace s, 0⟩

def tooShort (found : Nat) (expected : String) (s : List Char) : Fault :=
  ⟨.unfit s!"invalid length {found}, expected {expected}", pastBracket s, 0⟩

theorem afterColon_length_le {α : Type} {read : List Char → Read α}
    (shorter : ∀ {s rest : List Char} {a : α}, read s = .ok (a, rest) → rest.length ≤ s.length)
    {s rest : List Char} {a : α} (h : afterColon read s = .ok (a, rest)) :
    rest.length ≤ s.length := by
  unfold afterColon at h
  split at h
  · simp at h
  · rename_i tail colon
    have := skipColon_length_lt colon
    have := shorter h
    omega

theorem ignored_length_le {σ : Type} {state state' : σ} {s rest : List Char}
    (h : ignored state s = .ok (state', rest)) : rest.length ≤ s.length := by
  refine afterColon_length_le (a := state') ?_ h
  intro s rest a k
  cases value : skipValue s with
  | error e => simp [value, Except.map] at k
  | ok after =>
    simp only [value, Except.map, Except.ok.injEq, Prod.mk.injEq] at k
    rw [← k.2]
    exact skip_length_le value

def readWhole {α : Type} (read : List Char → Read α) (text : String) : Except Fault α :=
  match read text.toList with
  | .error e => .error e
  | .ok (value, rest) =>
    match skipBlank rest with
    | [] => .ok value
    | c :: more => .error (.next .trailingCharacters (c :: more))

end ModuleTree.Json
