import ModuleTree.Json.Fault
import ModuleTree.Decimal.Shortest
/- Blanks, strings, numbers and words of JSON. -/
namespace ModuleTree.Json

def isBlank (c : Char) : Bool := c = ' ' || c = '\n' || c = '\t' || c = '\r'

def skipBlank (s : List Char) : List Char := s.dropWhile isBlank

theorem skipBlank_length_le (s : List Char) : (skipBlank s).length ≤ s.length :=
  (List.dropWhile_sublist isBlank).length_le

def digit? (c : Char) : Option Nat :=
  if '0' ≤ c && c ≤ '9' then some (c.toNat - 48) else none

def hexDigit? (c : Char) : Option Nat :=
  if '0' ≤ c && c ≤ '9' then some (c.toNat - 48)
  else if 'a' ≤ c && c ≤ 'f' then some (c.toNat - 87)
  else if 'A' ≤ c && c ≤ 'F' then some (c.toNat - 55)
  else none

def isDigit (c : Char) : Bool := (digit? c).isSome

def skipDigits (s : List Char) : List Char := s.dropWhile isDigit

theorem skipDigits_length_le (s : List Char) : (skipDigits s).length ≤ s.length :=
  (List.dropWhile_sublist isDigit).length_le

def hexQuad : List Char → Read Nat
  | a :: b :: c :: d :: rest =>
    match hexDigit? a, hexDigit? b, hexDigit? c, hexDigit? d with
    | some a, some b, some c, some d => .ok (((a * 16 + b) * 16 + c) * 16 + d, rest)
    | _, _, _, _ => .error ⟨.invalidEscape, a :: b :: c :: d :: rest, 4⟩
  | rest =>
    if Text.size rest < 4 then .error ⟨.endInString, [], 0⟩
    else .error ⟨.invalidEscape, rest, 4⟩

theorem hexQuad_length_lt {s rest : List Char} {n : Nat} (h : hexQuad s = .ok (n, rest)) :
    rest.length < s.length := by
  unfold hexQuad at h
  split at h
  · split at h
    · simp only [Except.ok.injEq, Prod.mk.injEq] at h
      obtain ⟨-, rfl⟩ := h
      simp only [List.length_cons]
      omega
    · simp at h
  · split at h <;> simp at h

def isLeadingSurrogate (n : Nat) : Bool := 0xD800 ≤ n && n ≤ 0xDBFF

def isTrailingSurrogate (n : Nat) : Bool := 0xDC00 ≤ n && n ≤ 0xDFFF

def readTrailing (lead : Nat) : List Char → Read Char
  | '\\' :: 'u' :: s =>
    match hexQuad s with
    | .error e => .error e
    | .ok (n, rest) =>
      if isTrailingSurrogate n then
        .ok (Char.ofNat (0x10000 + (lead - 0xD800) * 1024 + (n - 0xDC00)), rest)
      else .error ⟨.loneSurrogate, rest, 0⟩
  | '\\' :: [] => .error ⟨.endInString, [], 0⟩
  | '\\' :: rest => .error ⟨.unpairedSurrogate, rest, 1⟩
  | [] => .error ⟨.endInString, [], 0⟩
  | rest => .error ⟨.unpairedSurrogate, rest, 1⟩

def simpleEscape? (c : Char) : Option Char :=
  if c = '"' || c = '\\' || c = '/' then some c
  else if c = 'b' then some '\x08'
  else if c = 'f' then some '\x0C'
  else if c = 'n' then some '\n'
  else if c = 'r' then some '\r'
  else if c = 't' then some '\t'
  else none

def readEscape : List Char → Read Char
  | [] => .error ⟨.endInString, [], 0⟩
  | c :: s =>
    if c = 'u' then
      match hexQuad s with
      | .error e => .error e
      | .ok (n, rest) =>
        if isTrailingSurrogate n then .error ⟨.loneSurrogate, rest, 0⟩
        else if isLeadingSurrogate n then readTrailing n rest
        else .ok (Char.ofNat n, rest)
    else
      match simpleEscape? c with
      | some plain => .ok (plain, s)
      | none => .error ⟨.invalidEscape, c :: s, 1⟩

theorem readTrailing_length_lt {lead : Nat} {s rest : List Char} {c : Char}
    (h : readTrailing lead s = .ok (c, rest)) : rest.length < s.length := by
  unfold readTrailing at h
  split at h
  · rename_i s
    split at h
    · simp at h
    · rename_i n more quad
      have shorter := hexQuad_length_lt quad
      split at h
      · simp only [Except.ok.injEq, Prod.mk.injEq] at h
        obtain ⟨-, rfl⟩ := h
        simp only [List.length_cons]
        omega
      · simp at h
  all_goals simp at h

theorem readEscape_length_lt {s rest : List Char} {c : Char}
    (h : readEscape s = .ok (c, rest)) : rest.length < s.length := by
  unfold readEscape at h
  split at h
  · simp at h
  · rename_i letter s
    split at h
    · split at h
      · simp at h
      · rename_i n more quad
        have shorter := hexQuad_length_lt quad
        split at h
        · simp at h
        · split at h
          · have := readTrailing_length_lt h
            simp only [List.length_cons]
            omega
          · simp only [Except.ok.injEq, Prod.mk.injEq] at h
            obtain ⟨-, rfl⟩ := h
            simp only [List.length_cons]
            omega
    · split at h
      · simp only [Except.ok.injEq, Prod.mk.injEq] at h
        obtain ⟨-, rfl⟩ := h
        simp
      · simp at h

def readChars (read : List Char) : List Char → Read String
  | [] => .error ⟨.endInString, [], 0⟩
  | c :: s =>
    if c = '"' then .ok (String.ofList read.reverse, s)
    else if c = '\\' then
      match _h : readEscape s with
      | .error e => .error e
      | .ok (plain, rest) => readChars (plain :: read) rest
    else if c < ' ' then .error ⟨.controlCharacter, s, 0⟩
    else readChars (c :: read) s
  termination_by s => s.length
  decreasing_by
    · have := readEscape_length_lt _h
      simp only [List.length_cons]
      omega
    · simp

theorem readChars_length_lt {read s rest : List Char} {text : String}
    (h : readChars read s = .ok (text, rest)) : rest.length < s.length := by
  fun_induction readChars read s with
  | case1 => simp at h
  | case2 =>
    simp only [Except.ok.injEq, Prod.mk.injEq] at h
    obtain ⟨-, rfl⟩ := h
    simp
  | case3 => simp at h
  | case4 read s plain more escape _ ih =>
    have := readEscape_length_lt escape
    have := ih h
    simp only [List.length_cons]
    omega
  | case5 => simp at h
  | case6 read c s _ _ _ ih =>
    have := ih h
    simp only [List.length_cons]
    omega

/-- Text behind a string that nobody wants. Its escapes need not pair up. -/
def skipChars : List Char → Except Fault (List Char)
  | [] => .error ⟨.endInString, [], 0⟩
  | c :: s =>
    if c = '"' then .ok s
    else if c = '\\' then
      match s with
      | [] => .error ⟨.endInString, [], 0⟩
      | letter :: s =>
        if letter = 'u' then
          match _h : hexQuad s with
          | .error e => .error e
          | .ok (_, rest) => skipChars rest
        else if (simpleEscape? letter).isSome then skipChars s
        else .error ⟨.invalidEscape, letter :: s, 1⟩
    else if c < ' ' then .error ⟨.controlCharacter, c :: s, 0⟩
    else skipChars s
  termination_by s => s.length
  decreasing_by
    · have := hexQuad_length_lt _h
      simp only [List.length_cons]
      omega
    · simp only [List.length_cons]
      omega
    · simp

theorem skipChars_length_lt {s rest : List Char} (h : skipChars s = .ok rest) :
    rest.length < s.length := by
  fun_induction skipChars s with
  | case1 => simp at h
  | case2 =>
    simp only [Except.ok.injEq] at h
    subst h
    simp
  | case3 => simp at h
  | case4 => simp at h
  | case5 s n more quad _ ih =>
    have := hexQuad_length_lt quad
    have := ih h
    simp only [List.length_cons]
    omega
  | case6 _ letter s _ _ ih =>
    have := ih h
    simp only [List.length_cons]
    omega
  | case7 => simp at h
  | case8 => simp at h
  | case9 c s _ _ _ ih =>
    have := ih h
    simp only [List.length_cons]
    omega

def skipWord : List Char → List Char → Except Fault (List Char)
  | [], s => .ok s
  | _ :: _, [] => .error ⟨.endInValue, [], 0⟩
  | letter :: word, c :: s =>
    if c = letter then skipWord word s else .error ⟨.expectedIdent, c :: s, 1⟩

theorem skipWord_length_le {word s rest : List Char} (h : skipWord word s = .ok rest) :
    rest.length ≤ s.length := by
  induction word generalizing s with
  | nil => simp_all [skipWord]
  | cons letter word ih =>
    cases s with
    | nil => simp [skipWord] at h
    | cons c s =>
      simp only [skipWord] at h
      split at h
      · have := ih h
        simp only [List.length_cons]
        omega
      · simp at h

def skipExponent (s : List Char) : Except Fault (List Char) :=
  let digits := match s with
    | '+' :: s => s
    | '-' :: s => s
    | s => s
  match digits with
  | [] => .error ⟨.invalidNumber, [], 0⟩
  | c :: rest => if isDigit c then .ok (skipDigits rest) else .error ⟨.invalidNumber, c :: rest, 1⟩

def isExponent (c : Char) : Bool := c = 'e' || c = 'E'

def skipFraction : List Char → Except Fault (List Char)
  | [] => .ok []
  | c :: s =>
    if c = '.' then
      match s with
      | [] => .error (.next .invalidNumber [])
      | first :: rest =>
        if isDigit first then
          match skipDigits rest with
          | [] => .ok []
          | e :: rest => if isExponent e then skipExponent rest else .ok (e :: rest)
        else .error (.next .invalidNumber (first :: rest))
    else if isExponent c then skipExponent s
    else .ok (c :: s)

def skipNumber : List Char → Except Fault (List Char)
  | [] => .error ⟨.invalidNumber, [], 0⟩
  | c :: s =>
    if c = '0' then
      match s with
      | [] => .ok []
      | d :: rest => if isDigit d then .error (.next .invalidNumber (d :: rest)) else skipFraction s
    else if isDigit c then skipFraction (skipDigits s)
    else .error ⟨.invalidNumber, c :: s, 1⟩

theorem skipExponent_length_le {s rest : List Char} (h : skipExponent s = .ok rest) :
    rest.length ≤ s.length := by
  unfold skipExponent at h
  simp only at h
  split at h
  · simp at h
  · rename_i c tail eq
    split at h
    · simp only [Except.ok.injEq] at h
      subst h
      have := skipDigits_length_le tail
      split at eq
      · subst eq
        simp only [List.length_cons]
        omega
      · subst eq
        simp only [List.length_cons]
        omega
      · subst eq
        simp only [List.length_cons]
        omega
    · simp at h

theorem skipFraction_length_le {s rest : List Char} (h : skipFraction s = .ok rest) :
    rest.length ≤ s.length := by
  unfold skipFraction at h
  split at h
  · simp_all
  · rename_i c s
    split at h
    · split at h
      · simp at h
      · rename_i first tail
        split at h
        · have bound := skipDigits_length_le tail
          split at h
          · simp_all
          · rename_i e more eq
            rw [eq] at bound
            simp only [List.length_cons] at bound ⊢
            split at h
            · have := skipExponent_length_le h
              omega
            · simp only [Except.ok.injEq] at h
              subst h
              simp only [List.length_cons]
              omega
        · simp at h
    · split at h
      · have := skipExponent_length_le h
        simp only [List.length_cons]
        omega
      · simp_all

theorem skipNumber_length_lt {s rest : List Char} (h : skipNumber s = .ok rest) :
    rest.length < s.length := by
  unfold skipNumber at h
  split at h
  · simp at h
  · rename_i c s
    split at h
    · split at h
      · simp_all
      · split at h
        · simp at h
        · have := skipFraction_length_le h
          simp only [List.length_cons] at this ⊢
          omega
    · split at h
      · have := skipFraction_length_le h
        have := skipDigits_length_le s
        simp only [List.length_cons]
        omega
      · simp at h

inductive Number where
  | whole (negative : Bool) (magnitude : Nat)
  | real (value : Float)

def Number.description : Number → String
  | .whole negative n =>
    let sign := if negative then "-" else ""
    s!"integer `{sign}{n}`"
  | .real value => s!"floating point `{Decimal.shortest value}`"

def wordLimit : Nat := 0x10000000000000000

def takeSignificand (value taken : Nat) : List Char → Nat × Nat × List Char
  | [] => (value, taken, [])
  | c :: s =>
    match digit? c with
    | none => (value, taken, c :: s)
    | some d =>
      if value * 10 + d < wordLimit then takeSignificand (value * 10 + d) (taken + 1) s
      else (value, taken, c :: s)

def scale (significand : Nat) (exponent : Int) : Option Float :=
  let value := Float.ofNat significand
  let power (n : Nat) : Float := Float.ofScientific 1 false n
  if 0 ≤ exponent then
    if significand = 0 then some 0
    else if exponent.toNat ≤ 308 then
      let scaled := value * power exponent.toNat
      if scaled.isInf then none else some scaled
    else none
  else
    let down := (-exponent).toNat
    if down ≤ 308 then some (value / power down)
    else if down ≤ 616 then some (value / power 308 / power (down - 308))
    else if down ≤ 924 then some (value / power 308 / power 308 / power (down - 616))
    else some 0

def signed (negative : Bool) (value : Float) : Float := if negative then -value else value

def finishReal (negative : Bool) (significand : Nat) (exponent : Int) (rest : List Char) :
    Read Number :=
  match scale significand exponent with
  | some value => .ok (.real (signed negative value), rest)
  | none => .error ⟨.numberOutOfRange, rest, 0⟩

def exponentLimit : Nat := 0x80000000

def readExponentDigits (value : Nat) : List Char → Option Nat × List Char
  | [] => (some value, [])
  | c :: s =>
    match digit? c with
    | none => (some value, c :: s)
    | some d =>
      if value * 10 + d < exponentLimit then readExponentDigits (value * 10 + d) s else (none, s)

def readExponent (negative : Bool) (significand : Nat) (exponent : Int) (s : List Char) :
    Read Number :=
  let (down, digits) := match s with
    | '+' :: s => (false, s)
    | '-' :: s => (true, s)
    | s => (false, s)
  match digits with
  | [] => .error ⟨.endInValue, [], 0⟩
  | c :: rest =>
    match digit? c with
    | none => .error ⟨.invalidNumber, c :: rest, 1⟩
    | some first =>
      match readExponentDigits first rest with
      | (some power, rest) =>
        finishReal negative significand (if down then exponent - power else exponent + power) rest
      | (none, rest) =>
        if significand ≠ 0 && !down then .error ⟨.numberOutOfRange, rest, 0⟩
        else .ok (.real (signed negative 0), skipDigits rest)

def readFraction (negative : Bool) (significand : Nat) (exponent : Int) (s : List Char) :
    Read Number :=
  let (value, taken, rest) := takeSignificand significand 0 s
  match rest with
  | [] =>
    if taken = 0 then .error ⟨.endInValue, [], 0⟩
    else finishReal negative value (exponent - taken) []
  | c :: _ =>
    if isDigit c then
      match skipDigits rest with
      | [] => finishReal negative value (exponent - taken) []
      | e :: more =>
        if isExponent e then readExponent negative value (exponent - taken) more
        else finishReal negative value (exponent - taken) (e :: more)
    else if taken = 0 then .error (.next .invalidNumber rest)
    else if isExponent c then readExponent negative value (exponent - taken) rest.tail
    else finishReal negative value (exponent - taken) rest

def signedLimit : Nat := 0x8000000000000000

/-- What a number without fraction and exponent is. The lowest integer needs 64 bits. -/
def wholeNumber (negative : Bool) (n : Nat) : Number :=
  if !negative then .whole false n
  else if n = 0 || signedLimit < n then .real (signed true (Float.ofNat n))
  else .whole true n

def readNumber (negative : Bool) : List Char → Read Number
  | [] => .error ⟨.endInValue, [], 0⟩
  | c :: s =>
    match digit? c with
    | none => .error ⟨.invalidNumber, c :: s, 1⟩
    | some first =>
      let (value, _, rest) := if first = 0 then (0, 0, s) else takeSignificand first 1 s
      match rest with
      | [] => .ok (wholeNumber negative value, [])
      | d :: more =>
        if d = '.' then readFraction negative value 0 more
        else if isExponent d then readExponent negative value 0 more
        else if !isDigit d then .ok (wholeNumber negative value, rest)
        else if first = 0 then .error (.next .invalidNumber rest)
        else
          let after := skipDigits rest
          let dropped : Int := rest.length - after.length
          match after with
          | [] => finishReal negative value dropped []
          | e :: more =>
            if e = '.' then readFraction negative value dropped more
            else if isExponent e then readExponent negative value dropped more
            else finishReal negative value dropped after

end ModuleTree.Json
