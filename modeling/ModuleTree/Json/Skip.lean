import ModuleTree.Json.Scalar
/- Passing over a JSON value that nobody wants, however deep it nests. -/
namespace ModuleTree.Json

inductive Frame where
  | list
  | object
  deriving DecidableEq, Repr

def Frame.unclosed : Frame → Problem
  | list => .endInList
  | object => .endInObject

def Frame.unseparated : Frame → Problem
  | list => .expectedListEnd
  | object => .expectedObjectEnd

def Frame.closing : Frame → Char
  | list => ']'
  | object => '\x7d'

def skipStart (s : List Char) : Read (Option Frame) :=
  match skipBlank s with
  | [] => .error (.next .endInValue [])
  | c :: rest =>
    if c = '[' then .ok (some .list, rest)
    else if c = '\x7b' then .ok (some .object, rest)
    else
      let scalar :=
        if c = '"' then skipChars rest
        else if c = 'n' then skipWord ['u', 'l', 'l'] rest
        else if c = 't' then skipWord ['r', 'u', 'e'] rest
        else if c = 'f' then skipWord ['a', 'l', 's', 'e'] rest
        else if c = '-' then skipNumber rest
        else if isDigit c then skipNumber (c :: rest)
        else .error (.next .expectedValue (c :: rest))
      scalar.map fun after => (none, after)

def skipColon (s : List Char) : Except Fault (List Char) :=
  match skipBlank s with
  | [] => .error (.next .endInObject [])
  | c :: rest => if c = ':' then .ok rest else .error (.next .expectedColon (c :: rest))

def skipKey (frame : Frame) (s : List Char) : Except Fault (List Char) :=
  match frame with
  | .list => .ok s
  | .object =>
    match skipBlank s with
    | [] => .error (.next .endInObject [])
    | c :: rest =>
      if c = '"' then (skipChars rest).bind skipColon
      else .error (.next .keyNotString (c :: rest))

/-- Inside a frame, after a value or at its start: `true` when another value follows,
`false` when the frame has closed. -/
def skipBetween (after : Bool) (frame : Frame) (s : List Char) : Read Bool :=
  match skipBlank s with
  | [] => .error (.next frame.unclosed [])
  | c :: rest =>
    if c = ',' && after then (skipKey frame rest).map fun s => (true, s)
    else if c = frame.closing then .ok (false, rest)
    else if after then .error (.next frame.unseparated (c :: rest))
    else (skipKey frame (c :: rest)).map fun s => (true, s)

theorem skipStart_length_lt {s rest : List Char} {frame : Option Frame}
    (h : skipStart s = .ok (frame, rest)) : rest.length < s.length := by
  have bound := skipBlank_length_le s
  unfold skipStart at h
  split at h
  · simp at h
  · rename_i c tail eq
    rw [eq, List.length_cons] at bound
    have scalar {r : Except Fault (List Char)} (shorter : ∀ t, r = .ok t → t.length ≤ tail.length)
        (k : r.map (fun after => ((none : Option Frame), after)) = .ok (frame, rest)) :
        rest.length < s.length := by
      cases r with
      | error e => simp [Except.map] at k
      | ok t =>
        simp only [Except.map, Except.ok.injEq, Prod.mk.injEq] at k
        have := shorter t rfl
        rw [k.2] at this
        omega
    split at h
    · simp only [Except.ok.injEq, Prod.mk.injEq] at h
      rw [← h.2]
      omega
    · split at h
      · simp only [Except.ok.injEq, Prod.mk.injEq] at h
        rw [← h.2]
        omega
      · refine scalar ?_ h
        intro t ht
        split at ht
        · exact Nat.le_of_lt (skipChars_length_lt ht)
        · split at ht
          · exact skipWord_length_le ht
          · split at ht
            · exact skipWord_length_le ht
            · split at ht
              · exact skipWord_length_le ht
              · split at ht
                · exact Nat.le_of_lt (skipNumber_length_lt ht)
                · split at ht
                  · have := skipNumber_length_lt ht
                    simp only [List.length_cons] at this
                    omega
                  · simp at ht

theorem skipColon_length_lt {s rest : List Char} (h : skipColon s = .ok rest) :
    rest.length < s.length := by
  have bound := skipBlank_length_le s
  unfold skipColon at h
  split at h
  · simp at h
  · rename_i c tail eq
    rw [eq, List.length_cons] at bound
    split at h
    · simp only [Except.ok.injEq] at h
      subst h
      omega
    · simp at h

theorem skipKey_length_le {frame : Frame} {s rest : List Char} (h : skipKey frame s = .ok rest) :
    rest.length ≤ s.length := by
  have bound := skipBlank_length_le s
  cases frame with
  | list => simp_all [skipKey]
  | object =>
    simp only [skipKey] at h
    split at h
    · simp at h
    · rename_i c tail eq
      rw [eq, List.length_cons] at bound
      split at h
      · cases chars : skipChars tail with
        | error e => simp [chars, Except.bind] at h
        | ok more =>
          simp only [chars, Except.bind] at h
          have := skipChars_length_lt chars
          have := skipColon_length_lt h
          omega
      · simp at h

theorem skipBetween_length_le {after more : Bool} {frame : Frame} {s rest : List Char}
    (h : skipBetween after frame s = .ok (more, rest)) :
    rest.length ≤ s.length ∧ (more = false → rest.length < s.length) := by
  have bound := skipBlank_length_le s
  have keyed {t : List Char} (le : t.length ≤ s.length)
      (k : (skipKey frame t).map (fun s => (true, s)) = .ok (more, rest)) :
      rest.length ≤ s.length ∧ (more = false → rest.length < s.length) := by
    cases key : skipKey frame t with
    | error e => simp [key, Except.map] at k
    | ok u =>
      simp only [key, Except.map, Except.ok.injEq, Prod.mk.injEq] at k
      obtain ⟨rfl, rfl⟩ := k
      have := skipKey_length_le key
      exact ⟨by omega, by simp⟩
  unfold skipBetween at h
  split at h
  · simp at h
  · rename_i c tail eq
    rw [eq, List.length_cons] at bound
    split at h
    · exact keyed (by omega) h
    · split at h
      · simp only [Except.ok.injEq, Prod.mk.injEq] at h
        obtain ⟨-, rfl⟩ := h
        exact ⟨by omega, fun _ => by omega⟩
      · split at h
        · simp at h
        · exact keyed (by simp only [List.length_cons]; omega) h

inductive Stage where
  | value
  | inside (after : Bool)
  deriving DecidableEq, Repr

def Stage.rank : Stage → Nat
  | value => 0
  | inside _ => 1

def skip : Stage → List Frame → List Char → Except Fault (List Char)
  | .value, frames, s =>
    match _h : skipStart s with
    | .error e => .error e
    | .ok (none, rest) => skip (.inside true) frames rest
    | .ok (some frame, rest) => skip (.inside false) (frame :: frames) rest
  | .inside _, [], s => .ok s
  | .inside after, frame :: frames, s =>
    match _h : skipBetween after frame s with
    | .error e => .error e
    | .ok (false, rest) => skip (.inside true) frames rest
    | .ok (true, rest) => skip .value (frame :: frames) rest
  termination_by stage _ s => (s.length, stage.rank)
  decreasing_by
    · exact Prod.Lex.left _ _ (skipStart_length_lt _h)
    · exact Prod.Lex.left _ _ (skipStart_length_lt _h)
    · exact Prod.Lex.left _ _ ((skipBetween_length_le _h).2 rfl)
    · rcases Nat.lt_or_eq_of_le (skipBetween_length_le _h).1 with lt | eq
      · exact Prod.Lex.left _ _ lt
      · rw [eq]
        exact Prod.Lex.right _ (by simp [Stage.rank])

def skipValue (s : List Char) : Except Fault (List Char) := skip .value [] s

theorem skip_length_le {stage : Stage} {frames : List Frame} {s rest : List Char}
    (h : skip stage frames s = .ok rest) : rest.length ≤ s.length := by
  fun_induction skip stage frames s with
  | case1 => simp at h
  | case2 frames s more start ih => exact Nat.le_trans (ih h) (Nat.le_of_lt (skipStart_length_lt start))
  | case3 frames s frame more start ih => exact Nat.le_trans (ih h) (Nat.le_of_lt (skipStart_length_lt start))
  | case4 => simp_all
  | case5 => simp at h
  | case6 after s frame frames more between ih => exact Nat.le_trans (ih h) (skipBetween_length_le between).1
  | case7 after s frame frames more between ih => exact Nat.le_trans (ih h) (skipBetween_length_le between).1

end ModuleTree.Json
