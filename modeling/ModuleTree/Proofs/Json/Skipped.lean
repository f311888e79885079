import ModuleTree.Json.Skip
import ModuleTree.Proofs.Json.Grammar
/- A value that nobody wants is passed over in full and no further, whatever it is, however deep
   it nests, and whatever encloses it. -/
namespace ModuleTree.Json

section Scalars

variable {a s rest : List Char} {c : Char}

theorem skipBlank_append (blanks : Blanks a) : skipBlank (a ++ s) = skipBlank s :=
  List.dropWhile_append_of_pos blanks

theorem skipBlank_to (blanks : Blanks a) (plain : isBlank c = false) :
    skipBlank (a ++ c :: s) = c :: s := by
  rw [skipBlank_append blanks, skipBlank, List.dropWhile_cons_of_neg (by simp [plain])]

def Stops (s : List Char) : Prop :=
  ∀ c ∈ s.head?, isDigit c = false ∧ c ≠ '.' ∧ isExponent c = false

theorem stops_cons (digit : isDigit c = false) (point : c ≠ '.') (mark : isExponent c = false) :
    Stops (c :: s) := by
  intro d here
  obtain rfl : c = d := by simpa using here
  exact ⟨digit, point, mark⟩

theorem stops_blanks (blanks : Blanks a) (stops : Stops s) : Stops (a ++ s) := by
  cases a with
  | nil => exact stops
  | cons c a =>
    have blank : isBlank c := blanks c List.mem_cons_self
    simp only [isBlank, Bool.or_eq_true, decide_eq_true_eq] at blank
    rcases blank with ((rfl | rfl) | rfl) | rfl <;>
      exact stops_cons (by decide) (by decide) (by decide)

theorem skipDigits_append (digits : Digits a) (ends : ∀ c ∈ s.head?, isDigit c = false) :
    skipDigits (a ++ s) = s := by
  rw [skipDigits, List.dropWhile_append_of_pos digits]
  cases s with
  | nil => rfl
  | cons c s => rw [List.dropWhile_cons_of_neg (by simp [ends c rfl])]

theorem exponent_head {e : List Char} (exponent : Exponent e) (stops : Stops rest) :
    ∀ c ∈ (e ++ rest).head?, isDigit c = false ∧ c ≠ '.' := by
  cases exponent with
  | none => exact fun c here => ⟨(stops c here).1, (stops c here).2.1⟩
  | @digits _ _ sign s mark =>
    intro c here
    simp only [List.cons_append, List.head?_cons, Option.mem_some_iff] at here
    subst here
    rcases mark with rfl | rfl <;> decide

theorem skipExponent_digits {sign s : List Char}
    (sign_ : sign = [] ∨ sign = ['+'] ∨ sign = ['-']) (digit : isDigit c) (digits : Digits s)
    (stops : Stops rest) : skipExponent (sign ++ c :: (s ++ rest)) = .ok rest := by
  have left : skipDigits (s ++ rest) = rest :=
    skipDigits_append digits fun c here => (stops c here).1
  rcases sign_ with rfl | rfl | rfl
  · have unsigned : c ≠ '+' ∧ c ≠ '-' := by
      constructor <;> (rintro rfl; exact absurd digit (by decide))
    simp [skipExponent, unsigned.1, unsigned.2, digit, left]
  · simp [skipExponent, digit, left]
  · simp [skipExponent, digit, left]

theorem skipFraction_exponent {e : List Char} (exponent : Exponent e) (stops : Stops rest) :
    skipFraction (e ++ rest) = .ok rest := by
  cases exponent with
  | none =>
    cases rest with
    | nil => rfl
    | cons c rest =>
      obtain ⟨_, point, mark⟩ := stops c rfl
      simp [skipFraction, point, mark]
  | @digits e c sign s mark sign_ digit digits =>
    have marks : isExponent e := by
      rcases mark with rfl | rfl <;> rfl
    have point : e ≠ '.' := by
      rcases mark with rfl | rfl <;> decide
    rw [List.append_assoc, List.cons_append, List.cons_append, skipFraction.eq_def]
    simp only [point, marks, if_false, if_true]
    exact skipExponent_digits sign_ digit digits stops

theorem skipFraction_append {f e : List Char} (fraction : Fraction f) (exponent : Exponent e)
    (stops : Stops rest) : skipFraction (f ++ (e ++ rest)) = .ok rest := by
  cases fraction with
  | none => exact skipFraction_exponent exponent stops
  | @digits c s digit digits =>
    have left : skipDigits (s ++ (e ++ rest)) = e ++ rest :=
      skipDigits_append digits fun c here => (exponent_head exponent stops c here).1
    have later := skipFraction_exponent exponent stops
    rw [List.cons_append, List.cons_append, skipFraction.eq_def]
    simp only [digit, if_true, left]
    cases behind : e ++ rest with
    | nil =>
      rw [List.append_eq_nil_iff] at behind
      rw [behind.2]
    | cons d more =>
      have point := (exponent_head exponent stops d (by rw [behind]; rfl)).2
      rw [behind, skipFraction.eq_def] at later
      simpa only [point, if_false] using later

theorem skipNumber_append {w f e : List Char} (whole : Whole w) (fraction : Fraction f)
    (exponent : Exponent e) (stops : Stops rest) :
    skipNumber (w ++ (f ++ (e ++ rest))) = .ok rest := by
  have later := skipFraction_append fraction exponent stops
  have ends : ∀ c ∈ (f ++ (e ++ rest)).head?, isDigit c = false := by
    cases fraction with
    | none => exact fun c here => (exponent_head exponent stops c here).1
    | digits =>
      rintro c here
      obtain rfl : '.' = c := by simpa using here
      decide
  cases whole with
  | zero =>
    rw [List.singleton_append, skipNumber.eq_def]
    simp only [if_true]
    cases behind : f ++ (e ++ rest) with
    | nil =>
      rw [List.append_eq_nil_iff, List.append_eq_nil_iff] at behind
      rw [behind.2.2]
    | cons d more =>
      simp only [ends d (by rw [behind]; rfl), Bool.false_eq_true, if_false]
      rw [← behind, later]
  | @digits c s digit nonzero digits =>
    rw [List.cons_append, skipNumber.eq_def]
    simp only [nonzero, digit, if_false, if_true, skipDigits_append digits ends, later]

end Scalars

section Strings

variable {s t rest : List Char}

theorem hexQuad_append {digits : List Char} {n : Nat} (quad : Quad digits n) :
    hexQuad (digits ++ s) = .ok (n, s) := by
  obtain ⟨first, second, third, fourth⟩ := quad
  simp [hexQuad, first, second, third, fourth]

theorem simpleEscape?_short {letter c : Char} (escape : (letter, c) ∈ shortEscapes) :
    letter ≠ 'u' ∧ simpleEscape? letter = some c := by
  simp only [shortEscapes, List.mem_cons, Prod.mk.injEq, List.not_mem_nil, or_false] at escape
  rcases escape with ⟨rfl, rfl⟩ | ⟨rfl, rfl⟩ | ⟨rfl, rfl⟩ | ⟨rfl, rfl⟩ | ⟨rfl, rfl⟩ | ⟨rfl, rfl⟩ |
    ⟨rfl, rfl⟩ | ⟨rfl, rfl⟩ <;> exact ⟨by decide, rfl⟩

theorem skipChars_append (letters : Letters s) : skipChars (s ++ '"' :: rest) = .ok rest := by
  induction letters with
  | nil =>
    rw [List.nil_append, skipChars.eq_def]
    simp only [if_true]
  | plain plain _ ih =>
    rw [List.cons_append, skipChars.eq_def]
    simp only [plain.quote, plain.backslash, plain.control, if_false, ih]
  | short escape _ ih =>
    obtain ⟨number, simple⟩ := simpleEscape?_short escape
    rw [List.cons_append, List.cons_append, skipChars.eq_def]
    simp only [show '\\' ≠ '"' by decide, number, simple, if_false, Option.isSome_some, if_true, ih]
  | @unit digits s n quad _ ih =>
    rw [List.append_assoc, List.cons_append, List.cons_append, skipChars.eq_def]
    simp only [show '\\' ≠ '"' by decide, if_false, if_true]
    split
    · rename_i failed
      cases (hexQuad_append quad).symm.trans failed
    · rename_i found
      cases (hexQuad_append quad).symm.trans found
      exact ih

theorem letters_unique {rest' : List Char} (letters : Letters s) (letters' : Letters t)
    (same : s ++ '"' :: rest = t ++ '"' :: rest') : s = t ∧ rest = rest' := by
  have left : (.ok rest : Except Fault (List Char)) = .ok rest' := by
    rw [← skipChars_append letters, same, skipChars_append letters']
  cases left
  exact ⟨List.append_cancel_right same, rfl⟩

end Strings

section Values

variable {a v s rest : List Char} {values : List (List Char)} {frames : List Frame} {frame : Frame}

theorem ne_of_isDigit {c d : Char} (digit : isDigit c) (other : isDigit d = false) : c ≠ d := by
  rintro rfl
  rw [digit] at other
  cases other

theorem isBlank_of_isDigit {c : Char} (digit : isDigit c) : isBlank c = false := by
  simp only [isBlank, ne_of_isDigit digit (show isDigit ' ' = false from rfl),
    ne_of_isDigit digit (show isDigit '\n' = false from rfl),
    ne_of_isDigit digit (show isDigit '\t' = false from rfl),
    ne_of_isDigit digit (show isDigit '\r' = false from rfl), decide_false, Bool.or_false]

theorem whole_head {w : List Char} (whole : Whole w) : ∃ c t, w = c :: t ∧ isDigit c := by
  cases whole with
  | zero => exact ⟨_, _, rfl, rfl⟩
  | digits digit => exact ⟨_, _, rfl, digit⟩

theorem numeral_head {numeral : List Char} (number : Numeral numeral) :
    ∃ c t, numeral = c :: t ∧ (c = '-' ∨ isDigit c) := by
  obtain ⟨sign, whole, _, _⟩ := number
  obtain ⟨c, t, rfl, digit⟩ := whole_head whole
  rcases sign with rfl | rfl
  · exact ⟨c, _, rfl, .inr digit⟩
  · exact ⟨'-', _, rfl, .inl rfl⟩

theorem value_head (written : Written .value v) :
    ∃ c t, v = c :: t ∧ isBlank c = false ∧ c ≠ ',' ∧ c ≠ ']' ∧ c ≠ '\x7d' := by
  cases written with
  | number numeral =>
    obtain ⟨c, t, whole, rfl | digit⟩ := numeral_head numeral
    · exact ⟨'-', t, whole, by decide⟩
    · exact ⟨c, t, whole, isBlank_of_isDigit digit, ne_of_isDigit digit rfl,
        ne_of_isDigit digit rfl, ne_of_isDigit digit rfl⟩
  | _ => exact ⟨_, _, rfl, by decide⟩

theorem skip_scalar (start : skipStart s = .ok (none, rest)) :
    skip .value frames s = skip (.inside true) frames rest := by
  rw [skip]
  split <;> simp_all

theorem skip_opening (start : skipStart s = .ok (some frame, rest)) :
    skip .value frames s = skip (.inside false) (frame :: frames) rest := by
  rw [skip]
  split <;> simp_all

theorem skip_closing {after : Bool} (between : skipBetween after frame s = .ok (false, rest)) :
    skip (.inside after) (frame :: frames) s = skip (.inside true) frames rest := by
  rw [skip]
  split <;> simp_all

theorem skip_going_on {after : Bool} (between : skipBetween after frame s = .ok (true, rest)) :
    skip (.inside after) (frame :: frames) s = skip .value (frame :: frames) rest := by
  conv_lhs => rw [skip]
  split <;> simp_all

theorem skipStart_scalar {c : Char} {after : List Char} (blanks : Blanks a)
    (plain : isBlank c = false) (list : c ≠ '[') (object : c ≠ '\x7b')
    (scalar : (if c = '"' then skipChars s
      else if c = 'n' then skipWord ['u', 'l', 'l'] s
      else if c = 't' then skipWord ['r', 'u', 'e'] s
      else if c = 'f' then skipWord ['a', 'l', 's', 'e'] s
      else if c = '-' then skipNumber s
      else if isDigit c then skipNumber (c :: s)
      else .error (.next .expectedValue (c :: s))) = .ok after) :
    skipStart (a ++ c :: s) = .ok (none, after) := by
  rw [skipStart, skipBlank_to blanks plain]
  simp only [list, object, if_false, scalar]
  rfl

def Frame.opening : Frame → Char
  | list => '['
  | object => '\x7b'

theorem skipStart_opening (blanks : Blanks a) :
    skipStart (a ++ frame.opening :: s) = .ok (some frame, s) := by
  rw [skipStart]
  cases frame <;> simp only [Frame.opening, skipBlank_to blanks (show isBlank '[' = false from rfl),
    skipBlank_to blanks (show isBlank '\x7b' = false from rfl)] <;> rfl

theorem skipStart_number {numeral : List Char} (blanks : Blanks a) (number : Numeral numeral)
    (stops : Stops rest) : skipStart (a ++ (numeral ++ rest)) = .ok (none, rest) := by
  obtain ⟨sign, whole, fraction, exponent⟩ := number
  have skipped := skipNumber_append whole fraction exponent stops
  obtain ⟨c, t, rfl, digit⟩ := whole_head whole
  simp only [List.append_assoc, List.cons_append] at skipped ⊢
  rcases sign with rfl | rfl
  · refine skipStart_scalar blanks (isBlank_of_isDigit digit) (ne_of_isDigit digit rfl)
      (ne_of_isDigit digit rfl) ?_
    rw [if_neg (ne_of_isDigit digit rfl), if_neg (ne_of_isDigit digit rfl),
      if_neg (ne_of_isDigit digit rfl), if_neg (ne_of_isDigit digit rfl),
      if_neg (ne_of_isDigit digit rfl), if_pos digit, skipped]
  · exact skipStart_scalar blanks rfl (by decide) (by decide) skipped

/-- What it is for a part to be passed over: a value behind blanks, and what stands between two
brackets together with the closing one. -/
def Skips : Part → List Char → Prop
  | .value, v => ∀ a frames rest, Blanks a → Stops rest →
      skip .value frames (a ++ (v ++ rest)) = skip (.inside true) frames rest
  | .elements _, s => ∀ frames rest,
      skip (.inside false) (.list :: frames) (s ++ ']' :: rest) = skip (.inside true) frames rest ∧
      skip .value (.list :: frames) (s ++ ']' :: rest) = skip (.inside true) frames rest
  | .members, s => ∀ frames rest,
      skip (.inside false) (.object :: frames) (s ++ '\x7d' :: rest) =
        skip (.inside true) frames rest ∧
      ∃ t, skipKey .object (s ++ '\x7d' :: rest) = .ok t ∧
        skip .value (.object :: frames) t = skip (.inside true) frames rest

theorem skip_close (frame : Frame) {after : Bool} (blanks : Blanks a) :
    skip (.inside after) (frame :: frames) (a ++ frame.closing :: rest) =
      skip (.inside true) frames rest := by
  refine skip_closing ?_
  have plain : isBlank frame.closing = false := by cases frame <;> rfl
  have apart : frame.closing ≠ ',' := by cases frame <;> decide
  rw [skipBetween, skipBlank_to blanks plain]
  simp [apart]

theorem skip_comma {t : List Char} (frame : Frame) (blanks : Blanks a)
    (key : skipKey frame s = .ok t) :
    skip (.inside true) (frame :: frames) (a ++ ',' :: s) = skip .value (frame :: frames) t := by
  refine skip_going_on ?_
  rw [skipBetween, skipBlank_to blanks (by decide)]
  simp [key, Except.map]

theorem skip_first {c : Char} {t : List Char} (frame : Frame) (blanks : Blanks a)
    (plain : isBlank c = false) (open_ : c ≠ frame.closing)
    (key : skipKey frame (c :: s) = .ok t) :
    skip (.inside false) (frame :: frames) (a ++ c :: s) = skip .value (frame :: frames) t := by
  refine skip_going_on ?_
  rw [skipBetween, skipBlank_to blanks plain]
  simp [open_, key, Except.map]

theorem skip_opened (frame : Frame) (blanks : Blanks a)
    (inner : skip (.inside false) (frame :: frames) s = skip (.inside true) frames rest) :
    skip .value frames (a ++ frame.opening :: s) = skip (.inside true) frames rest :=
  (skip_opening (skipStart_opening blanks)).trans inner

theorem skip_element (before : Blanks a) (value : Written .value v) (skips : Skips .value v)
    (stops : Stops s) :
    skip (.inside false) (.list :: frames) (a ++ (v ++ s)) =
        skip (.inside true) (.list :: frames) s ∧
      skip .value (.list :: frames) (a ++ (v ++ s)) = skip (.inside true) (.list :: frames) s := by
  refine ⟨?_, skips a _ s before stops⟩
  have here := skips [] (.list :: frames) s (List.forall_mem_nil _) stops
  obtain ⟨c, t, rfl, plain, _, open_, _⟩ := value_head value
  rw [List.cons_append, skip_first .list before plain open_ rfl]
  exact here

theorem skipColon_append (blanks : Blanks a) : skipColon (a ++ ':' :: s) = .ok s := by
  rw [skipColon, skipBlank_to blanks rfl]
  rfl

theorem skipKey_member {b c key : List Char} (before : Blanks a) (letters : Letters key)
    (behind : Blanks b) :
    skipKey .object (a ++ '"' :: (key ++ '"' :: (b ++ ':' :: (c ++ s)))) = .ok (c ++ s) := by
  simp only [skipKey, skipBlank_to before (show isBlank '"' = false from rfl), if_true,
    skipChars_append letters, Except.bind, skipColon_append behind]

theorem skip_member {b c key : List Char} (before : Blanks a) (letters : Letters key)
    (behind : Blanks b) (between : Blanks c) (skips : Skips .value v) (stops : Stops s) :
    skip (.inside false) (.object :: frames)
          (a ++ '"' :: (key ++ '"' :: (b ++ ':' :: (c ++ (v ++ s))))) =
        skip (.inside true) (.object :: frames) s ∧
      ∃ t, skipKey .object (a ++ '"' :: (key ++ '"' :: (b ++ ':' :: (c ++ (v ++ s))))) = .ok t ∧
        skip .value (.object :: frames) t = skip (.inside true) (.object :: frames) s := by
  have value := skips c (.object :: frames) s between stops
  constructor
  · have key : skipKey .object ('"' :: (key ++ '"' :: (b ++ ':' :: (c ++ (v ++ s))))) =
        .ok (c ++ (v ++ s)) := skipKey_member (List.forall_mem_nil _) letters behind
    rw [skip_first .object before (by decide) (by decide) key, value]
  · exact ⟨_, skipKey_member before letters behind, value⟩

theorem stops_close (frame : Frame) : Stops (frame.closing :: rest) := by
  cases frame <;> exact stops_cons rfl (by decide) rfl

theorem stops_comma : Stops (',' :: rest) := stops_cons rfl (by decide) rfl

/-- Every value is passed over, and so is all that brackets hold: by induction on how it is
written, whatever encloses it. -/
theorem skips_of_written {part : Part} {s : List Char} (written : Written part s) :
    Skips part s := by
  induction written with
  | null =>
    intro a frames rest blanks _
    exact skip_scalar (skipStart_scalar blanks rfl (by decide) (by decide) rfl)
  | true =>
    intro a frames rest blanks _
    exact skip_scalar (skipStart_scalar blanks rfl (by decide) (by decide) rfl)
  | false =>
    intro a frames rest blanks _
    exact skip_scalar (skipStart_scalar blanks rfl (by decide) (by decide) rfl)
  | string letters =>
    intro a frames rest blanks _
    rw [List.append_assoc, List.cons_append, List.singleton_append]
    refine skip_scalar (skipStart_scalar blanks rfl (by decide) (by decide) ?_)
    rw [if_pos rfl, skipChars_append letters]
  | number numeral =>
    intro a frames rest blanks stops
    exact skip_scalar (skipStart_number blanks numeral stops)
  | emptyList inner =>
    intro a frames rest blanks _
    rw [List.append_assoc, List.cons_append, List.singleton_append]
    exact skip_opened .list blanks (skip_close .list inner)
  | list elements ih =>
    intro a frames rest blanks _
    rw [List.append_assoc, List.cons_append, List.singleton_append]
    exact skip_opened .list blanks (ih frames rest).1
  | emptyObject inner =>
    intro a frames rest blanks _
    rw [List.append_assoc, List.cons_append, List.singleton_append]
    exact skip_opened .object blanks (skip_close .object inner)
  | object members ih =>
    intro a frames rest blanks _
    rw [List.append_assoc, List.cons_append, List.singleton_append]
    exact skip_opened .object blanks (ih frames rest).1
  | element before value after ih =>
    intro frames rest
    rw [List.append_assoc, List.append_assoc, ← skip_close .list after]
    exact skip_element before value ih (stops_blanks after (stops_close .list))
  | elements before value after _ ih later =>
    intro frames rest
    rw [List.append_assoc, List.append_assoc, List.append_assoc, List.cons_append,
      ← (later frames rest).2, ← skip_comma .list after rfl]
    exact skip_element before value ih (stops_blanks after stops_comma)
  | member before letters behind between value after ih =>
    intro frames rest
    rw [← skip_close .object after]
    simp only [List.append_assoc, List.cons_append]
    exact skip_member before letters behind between ih (stops_blanks after (stops_close .object))
  | members before letters behind between value after _ ih later =>
    intro frames rest
    obtain ⟨t, key, more⟩ := (later frames rest).2
    rw [← more, ← skip_comma .object after key]
    simp only [List.append_assoc, List.cons_append]
    exact skip_member before letters behind between ih (stops_blanks after stops_comma)

theorem skipValue_append (blanks : Blanks a) (written : Written .value v) (stops : Stops rest) :
    skipValue (a ++ (v ++ rest)) = .ok rest := by
  rw [skipValue, skips_of_written written a [] rest blanks stops, skip]

end Values

end ModuleTree.Json
