import ModuleTree.Json.Record
import ModuleTree.Proofs.Json.Skipped
/- What is read of a text as it is written: of a string its text, however that is spelled; of a
   list of strings the texts; of an object each member, with the blanks behind the last. Nothing
   else is read of it. -/
namespace ModuleTree.Json

section Strings

variable {s t left rest read : List Char} {c : Char} {n : Nat}

theorem toNat_le_of_range {low high : Char} (range : (decide (low ≤ c) && decide (c ≤ high)) = true) :
    c.toNat ≤ high.toNat := by
  simp only [Bool.and_eq_true, decide_eq_true_eq] at range
  exact range.2

theorem hexDigit?_lt {i : Nat} (digit : hexDigit? c = some i) : i < 16 := by
  unfold hexDigit? at digit
  split_ifs at digit with decimal small capital
  · have bound : c.toNat ≤ 57 := toNat_le_of_range decimal
    obtain rfl := Option.some.inj digit
    omega
  · have bound : c.toNat ≤ 102 := toNat_le_of_range small
    obtain rfl := Option.some.inj digit
    omega
  · have bound : c.toNat ≤ 70 := toNat_le_of_range capital
    obtain rfl := Option.some.inj digit
    omega

theorem quad_lt {digits : List Char} (quad : Quad digits n) : n < 0x10000 := by
  obtain ⟨first, second, third, fourth⟩ := quad
  have := hexDigit?_lt first
  have := hexDigit?_lt second
  have := hexDigit?_lt third
  have := hexDigit?_lt fourth
  omega

theorem quad_of_hexQuad (read : hexQuad s = .ok (n, rest)) :
    ∃ digits, Quad digits n ∧ s = digits ++ rest := by
  unfold hexQuad at read
  split at read
  · split at read
    · rename_i first second third fourth
      cases read
      exact ⟨_, .digits first second third fourth, rfl⟩
    · cases read
  · split at read <;> cases read

theorem toNat_ofNat_of_valid (valid : n.isValidChar) : (Char.ofNat n).toNat = n := by
  rw [Char.ofNat, dif_pos valid]
  rfl

theorem not_surrogate (c : Char) :
    isLeadingSurrogate c.toNat = false ∧ isTrailingSurrogate c.toNat = false := by
  have valid : c.toNat.isValidChar := c.valid
  simp only [Nat.isValidChar] at valid
  simp only [isLeadingSurrogate, isTrailingSurrogate, Bool.and_eq_false_iff,
    decide_eq_false_iff_not]
  omega

theorem valid_of_lone (small : n < 0x10000) (lead : ¬isLeadingSurrogate n)
    (trail : ¬isTrailingSurrogate n) : n.isValidChar := by
  simp only [isLeadingSurrogate, isTrailingSurrogate, Bool.and_eq_true, decide_eq_true_eq]
    at lead trail
  simp only [Nat.isValidChar]
  omega

theorem readChars_escape (escape : readEscape s = .ok (c, rest)) :
    readChars read ('\\' :: s) = readChars (c :: read) rest := by
  rw [readChars, if_neg (by decide), if_pos rfl]
  split
  · rename_i e failed
    cases escape.symm.trans failed
  · rename_i plain more found
    cases escape.symm.trans found
    rfl

theorem readChars_spells (spells : Spells c s) :
    readChars read (s ++ rest) = readChars (c :: read) rest := by
  cases spells with
  | plain plain =>
    rw [List.singleton_append, readChars, if_neg plain.quote, if_neg plain.backslash,
      if_neg plain.control]
  | short escape =>
    obtain ⟨ordinary, simple⟩ := simpleEscape?_short escape
    rw [List.cons_append, List.singleton_append]
    refine readChars_escape ?_
    rw [readEscape, if_neg ordinary, simple]
  | unit quad =>
    rw [List.cons_append, List.cons_append]
    refine readChars_escape ?_
    obtain ⟨leads, trails⟩ := not_surrogate c
    rw [readEscape, if_pos rfl, hexQuad_append quad]
    simp only [leads, trails, Bool.false_eq_true, if_false, Char.ofNat_toNat]
  | @pair _ digits digits' high low quad quad' leading trailing whole =>
    rw [List.append_assoc, List.cons_append, List.cons_append]
    refine readChars_escape ?_
    have lead : isLeadingSurrogate high := by simp [isLeadingSurrogate, leading]
    have trail : isTrailingSurrogate low := by simp [isTrailingSurrogate, trailing]
    have other : isTrailingSurrogate high = false := by
      simp only [isTrailingSurrogate, Bool.and_eq_false_iff, decide_eq_false_iff_not]
      omega
    rw [readEscape, if_pos rfl, hexQuad_append quad]
    simp only [other, lead, Bool.false_eq_true, if_false, if_true, List.cons_append, readTrailing,
      hexQuad_append quad', trail]
    rw [← whole, Char.ofNat_toNat]

theorem readChars_spelled {cs : List Char} (spelled : Spelled cs s) :
    readChars read (s ++ '"' :: rest) = .ok (String.ofList (read.reverse ++ cs), rest) := by
  induction spelled generalizing read with
  | nil => rw [List.nil_append, readChars, if_pos rfl, List.append_nil]
  | cons first _ ih =>
    rw [List.append_assoc, readChars_spells first, ih, List.reverse_cons, List.append_assoc,
      List.singleton_append]

theorem short_of_simpleEscape? {letter : Char} (simple : simpleEscape? letter = some c) :
    (letter, c) ∈ shortEscapes := by
  simp only [simpleEscape?, Bool.or_eq_true, decide_eq_true_eq] at simple
  split_ifs at simple with same
  · obtain rfl := Option.some.inj simple
    rcases same with (rfl | rfl) | rfl <;> simp [shortEscapes]
  all_goals
    obtain rfl := Option.some.inj simple
    simp [shortEscapes, *]

theorem spells_of_readTrailing {high : Nat} {digits : List Char} (quad : Quad digits high)
    (lead : isLeadingSurrogate high) (read : readTrailing high s = .ok (c, rest)) :
    ∃ t, Spells c ('\\' :: 'u' :: digits ++ t) ∧ s = t ++ rest := by
  unfold readTrailing at read
  split at read
  · split at read
    · cases read
    · rename_i low more hex
      split at read
      · rename_i trail
        obtain ⟨digits', quad', rfl⟩ := quad_of_hexQuad hex
        simp only [isLeadingSurrogate, isTrailingSurrogate, Bool.and_eq_true, decide_eq_true_eq]
          at lead trail
        obtain ⟨rfl, rfl⟩ := Prod.mk.inj (Except.ok.inj read)
        refine ⟨'\\' :: 'u' :: digits', .pair quad quad' lead trail ?_, rfl⟩
        exact toNat_ofNat_of_valid (.inr ⟨by omega, by omega⟩)
      · cases read
  all_goals cases read

theorem spells_of_readEscape (read : readEscape s = .ok (c, rest)) :
    ∃ t, Spells c ('\\' :: t) ∧ s = t ++ rest := by
  unfold readEscape at read
  split at read
  · cases read
  · rename_i letter s
    split at read
    · rename_i number
      subst number
      split at read
      · cases read
      · rename_i n more hex
        obtain ⟨digits, quad, rfl⟩ := quad_of_hexQuad hex
        split at read
        · cases read
        · rename_i trail
          split at read
          · rename_i lead
            obtain ⟨t, spells, rfl⟩ := spells_of_readTrailing quad lead read
            exact ⟨_, spells, by simp⟩
          · rename_i lead
            cases read
            refine ⟨'u' :: digits, .unit ?_, rfl⟩
            rwa [toNat_ofNat_of_valid (valid_of_lone (quad_lt quad) lead trail)]
    · split at read
      · rename_i simple
        cases read
        exact ⟨[letter], .short (short_of_simpleEscape? simple), rfl⟩
      · cases read

theorem spelled_of_readChars {text : String} (found : readChars read s = .ok (text, rest)) :
    ∃ cs t, Spelled cs t ∧ s = t ++ '"' :: rest ∧ text = String.ofList (read.reverse ++ cs) := by
  fun_induction readChars read s with
  | case1 => cases found
  | case2 read s =>
    cases found
    exact ⟨[], [], .nil, rfl, by rw [List.append_nil]⟩
  | case3 => cases found
  | case4 read s plain more escape _ ih =>
    obtain ⟨t, spells, rfl⟩ := spells_of_readEscape escape
    obtain ⟨cs, u, spelled, rfl, rfl⟩ := ih found
    exact ⟨plain :: cs, '\\' :: t ++ u, .cons spells spelled, by simp, by simp⟩
  | case5 => cases found
  | case6 read c s quote backslash control ih =>
    obtain ⟨cs, u, spelled, rfl, rfl⟩ := ih found
    exact ⟨c :: cs, [c] ++ u, .cons (.plain ⟨quote, backslash, control⟩) spelled, rfl, by simp⟩

theorem letters_of_spelled {cs : List Char} (spelled : Spelled cs s) : Letters s := by
  induction spelled with
  | nil => exact .nil
  | cons first _ ih =>
    cases first with
    | plain plain => exact .plain plain ih
    | short escape => exact .short escape ih
    | unit quad => exact .unit quad ih
    | pair quad quad' =>
      rw [List.append_assoc]
      exact .unit quad (.unit quad' ih)

theorem written_of_quotes {text : String} (quotes : Quotes text s) : Written .value s := by
  obtain ⟨spelled⟩ := quotes
  exact .string (letters_of_spelled spelled)

end Strings

section Lists

variable {a b v s rest left : List Char} {values : List (List Char)} {text : String}
  {read texts : List String} {first : Bool} {c : Char}

theorem letters_of_quote (written : Written .value ('"' :: s)) :
    ∃ t, Letters t ∧ s = t ++ ['"'] := by
  generalize same : '"' :: s = v at written
  cases written with
  | string letters =>
    obtain rfl : s = _ := List.tail_eq_of_cons_eq same
    exact ⟨_, letters, rfl⟩
  | number numeral =>
    obtain ⟨c, t, rfl, rfl | digit⟩ := numeral_head numeral
    · cases same
    · cases same
      cases digit
  | _ => cases same

theorem readString_iff (blanks : Blanks a) (written : Written .value v) :
    readString (a ++ (v ++ rest)) = .ok (text, left) ↔ Quotes text v ∧ left = rest := by
  constructor
  · intro found
    obtain ⟨c, t, rfl, plain, _⟩ := value_head written
    rw [List.cons_append, readString, skipBlank_to blanks plain] at found
    simp only at found
    split at found
    · rename_i quote
      subst quote
      obtain ⟨s, letters, rfl⟩ := letters_of_quote written
      obtain ⟨cs, u, spelled, same, rfl⟩ := spelled_of_readChars found
      rw [List.append_assoc, List.singleton_append] at same
      obtain ⟨rfl, rfl⟩ := letters_unique letters (letters_of_spelled spelled) same
      exact ⟨.quoted (by simpa using spelled), rfl⟩
    · cases found
  · rintro ⟨⟨spelled⟩, rfl⟩
    rw [List.append_assoc, List.cons_append, List.singleton_append, readString,
      skipBlank_to blanks rfl]
    simp only [if_true, readChars_spelled spelled, List.reverse_nil, List.nil_append,
      String.ofList_toList]

def comma (first : Bool) : List Char := if first then [] else [',']

theorem skipBlank_comma (before : Blanks b) (blanks : Blanks a) (plain : isBlank c = false) :
    skipBlank (b ++ (comma first ++ (a ++ c :: s))) =
      if first then c :: s else ',' :: (a ++ c :: s) := by
  cases first with
  | true => rw [skipBlank_append before]; exact skipBlank_to blanks plain
  | false => exact skipBlank_to before rfl

theorem nextElement_item (before : Blanks b) (blanks : Blanks a) (plain : isBlank c = false)
    (open_ : c ≠ ']') :
    nextElement first (b ++ (comma first ++ (a ++ c :: s))) = .ok (some (c :: s)) := by
  rw [nextElement, skipBlank_comma before blanks plain]
  cases first <;> simp [skipBlank_to blanks plain, open_]

theorem nextElement_end (blanks : Blanks a) : nextElement first (a ++ ']' :: s) = .ok none := by
  rw [nextElement, skipBlank_to blanks rfl]
  rfl

theorem closeList_end (blanks : Blanks a) : closeList (a ++ ']' :: s) = .ok s := by
  rw [closeList, skipBlank_to blanks rfl]
  rfl

theorem readStrings_of_none (next : nextElement first s = .ok none) :
    readStrings first read s = .ok (read.reverse, s) := by
  rw [readStrings]
  split <;> simp_all

theorem readStrings_iff {element : List Char} (next : nextElement first s = .ok (some element)) :
    readStrings first read s = .ok (texts, left) ↔ ∃ text rest,
      readString element = .ok (text, rest) ∧
        readStrings false (text :: read) rest = .ok (texts, left) := by
  conv_lhs => rw [readStrings]
  split
  · simp_all
  · simp_all
  · rename_i found same
    obtain rfl : element = found := by simpa using next.symm.trans same
    split
    · simp_all
    · rename_i name more string
      simp [string]

theorem readStrings_element (before : Blanks b) (blanks : Blanks a) (value : Written .value v) :
    readStrings first read (b ++ (comma first ++ (a ++ (v ++ s)))) = .ok (texts, left) ↔
      ∃ text, Quotes text v ∧ readStrings false (text :: read) s = .ok (texts, left) := by
  have string (text : String) (rest : List Char) :
      readString (v ++ s) = .ok (text, rest) ↔ Quotes text v ∧ rest = s :=
    readString_iff (List.forall_mem_nil _) value
  obtain ⟨c, t, rfl, plain, _, open_, _⟩ := value_head value
  rw [List.cons_append] at string ⊢
  rw [readStrings_iff (nextElement_item before blanks plain open_)]
  simp only [string]
  constructor
  · rintro ⟨text, _, ⟨quotes, rfl⟩, more⟩
    exact ⟨text, quotes, more⟩
  · rintro ⟨text, quotes, more⟩
    exact ⟨text, s, ⟨quotes, rfl⟩, more⟩

theorem readStrings_elements (first : Bool) (written : Written (.elements values) s)
    (before : Blanks b) :
    ∃ d, Blanks d ∧ ∀ read texts left,
      readStrings first read (b ++ (comma first ++ (s ++ ']' :: rest))) = .ok (texts, left) ↔
        (∃ names, List.Forall₂ Quotes names values ∧ texts = read.reverse ++ names) ∧
          left = d ++ ']' :: rest := by
  induction values generalizing first s b with
  | nil => cases written
  | cons v values ih =>
    cases written with
    | @element a d _ blanks value after =>
      refine ⟨d, after, fun read texts left => ?_⟩
      have ends (text : String) : readStrings false (text :: read) (d ++ ']' :: rest) =
          .ok ((text :: read).reverse, d ++ ']' :: rest) := readStrings_of_none (nextElement_end after)
      rw [List.append_assoc, List.append_assoc, readStrings_element before blanks value]
      simp only [ends, Except.ok.injEq, Prod.mk.injEq, List.reverse_cons]
      constructor
      · rintro ⟨text, quotes, rfl, rfl⟩
        exact ⟨⟨[text], .cons quotes .nil, rfl⟩, rfl⟩
      · rintro ⟨⟨_, _ | ⟨quotes, _ | _⟩, rfl⟩, rfl⟩
        exact ⟨_, quotes, rfl, rfl⟩
    | @elements a b' _ s _ blanks value after more =>
      obtain ⟨d, close, later⟩ := ih false more after
      refine ⟨d, close, fun read texts left => ?_⟩
      rw [List.append_assoc, List.append_assoc, List.append_assoc,
        readStrings_element before blanks value]
      have next (text : String) := later (text :: read) texts left
      simp only [comma, Bool.false_eq_true, if_false, List.singleton_append, List.reverse_cons]
        at next
      simp only [List.cons_append, next]
      constructor
      · rintro ⟨text, quotes, ⟨names, all, rfl⟩, rfl⟩
        exact ⟨⟨text :: names, .cons quotes all, by simp⟩, rfl⟩
      · rintro ⟨⟨_, _ | ⟨quotes, all⟩, rfl⟩, rfl⟩
        exact ⟨_, quotes, ⟨_, all, by simp⟩, rfl⟩

theorem readStringList_listed {names : List String} (blanks : Blanks a) (listed : Listed values v) :
    readStringList (a ++ (v ++ rest)) = .ok (names, left) ↔
      List.Forall₂ Quotes names values ∧ left = rest := by
  cases listed with
  | none inner =>
    rw [List.append_assoc, List.cons_append, List.singleton_append, readStringList,
      skipBlank_to blanks rfl]
    simp only [if_true, readStrings_of_none (nextElement_end inner), closeList_end inner]
    simp [Except.map, eq_comm]
  | @some s _ written =>
    obtain ⟨d, close, all⟩ : ∃ d, Blanks d ∧ ∀ read texts left,
        readStrings true read (s ++ ']' :: rest) = .ok (texts, left) ↔
          (∃ names, List.Forall₂ Quotes names values ∧ texts = read.reverse ++ names) ∧
            left = d ++ ']' :: rest :=
      readStrings_elements true written (List.forall_mem_nil _)
    have read (texts : List String) (left : List Char) :
        readStrings true [] (s ++ ']' :: rest) = .ok (texts, left) ↔
          List.Forall₂ Quotes texts values ∧ left = d ++ ']' :: rest := by
      simpa using all [] texts left
    rw [List.append_assoc, List.cons_append, List.singleton_append, readStringList,
      skipBlank_to blanks rfl]
    simp only [if_true]
    constructor
    · intro found
      split at found
      · cases found
      · rename_i texts more strings
        obtain ⟨quotes, rfl⟩ := (read texts more).mp strings
        rw [closeList_end close] at found
        cases found
        exact ⟨quotes, rfl⟩
    · rintro ⟨quotes, rfl⟩
      rw [(read names _).mpr ⟨quotes, rfl⟩]
      simp only [closeList_end close]
      rfl

theorem listed_of_bracket (written : Written .value ('[' :: s)) :
    ∃ values, Listed values ('[' :: s) := by
  generalize same : '[' :: s = v at written
  cases written with
  | emptyList blanks => exact ⟨[], .none blanks⟩
  | list elements => exact ⟨_, .some elements⟩
  | number numeral =>
    obtain ⟨c, t, rfl, rfl | digit⟩ := numeral_head numeral
    · cases same
    · cases same
      cases digit
  | _ => cases same

theorem readStringList_iff {names : List String} (blanks : Blanks a) (written : Written .value v) :
    readStringList (a ++ (v ++ rest)) = .ok (names, left) ↔ Enlists names v ∧ left = rest := by
  constructor
  · intro found
    have read := found
    obtain ⟨c, t, rfl, plain, _⟩ := value_head written
    rw [List.cons_append, readStringList, skipBlank_to blanks plain] at found
    simp only at found
    split at found
    · rename_i bracket
      subst bracket
      obtain ⟨values, listed⟩ := listed_of_bracket written
      obtain ⟨quotes, rest⟩ := (readStringList_listed blanks listed).mp read
      exact ⟨⟨values, listed, quotes⟩, rest⟩
    · cases found
  · rintro ⟨⟨values, listed, quotes⟩, rfl⟩
    exact (readStringList_listed blanks listed).mpr ⟨quotes, rfl⟩

end Lists

section Objects

variable {σ : Type} {m : Members σ} {state state' : σ} {first : Bool} {name : String}
  {a b s rest left : List Char} {entries : List (String × List Char)}

theorem nextKey_item (before : Blanks b) (blanks : Blanks a) :
    nextKey first (b ++ (comma first ++ (a ++ '"' :: s))) = .ok (some s) := by
  have quote : isBlank '"' = false := rfl
  rw [nextKey, skipBlank_comma before blanks quote]
  cases first <;> simp [skipBlank_to blanks quote]

theorem nextKey_end (blanks : Blanks a) : nextKey first (a ++ '\x7d' :: s) = .ok none := by
  rw [nextKey, skipBlank_to blanks rfl]
  rfl

theorem pastBrace_end (blanks : Blanks a) : pastBrace (a ++ '\x7d' :: s) = s := by
  rw [pastBrace, skipBlank_to blanks rfl]
  rfl

theorem Members.read_of_none (next : nextKey first s = .ok none) :
    m.read first state s = .ok (state, s) := by
  rw [Members.read]
  split <;> simp_all

theorem Members.read_next {key behind : List Char} (next : nextKey first s = .ok (some key))
    (named : readChars [] key = .ok (name, behind)) :
    m.read first state s =
      (m.member state name behind).bind fun taken => m.read false taken.1 taken.2 := by
  rw [Members.read]
  split
  · simp_all
  · simp_all
  · rename_i found same
    obtain rfl : key = found := by simpa using next.symm.trans same
    split
    · simp_all
    · rename_i other more read
      cases named.symm.trans read
      split
      · rename_i failed
        rw [failed]
        rfl
      · rename_i taken
        rw [taken]
        rfl

theorem Members.read_iff {key behind : List Char} (next : nextKey first s = .ok (some key))
    (named : readChars [] key = .ok (name, behind)) :
    m.read first state s = .ok (state', left) ↔ ∃ state₁ rest,
      m.member state name behind = .ok (state₁, rest) ∧
        m.read false state₁ rest = .ok (state', left) := by
  rw [read_next next named]
  cases m.member state name behind <;> simp [Except.bind, Prod.ext_iff]

inductive Along (takes : σ → String → List Char → σ → Prop) :
    σ → List (String × List Char) → σ → Prop where
  | none {state : σ} : Along takes state [] state
  | some {state state₁ state' : σ} {name : String} {v : List Char}
      {entries : List (String × List Char)} (first : takes state name v state₁)
      (rest : Along takes state₁ entries state') : Along takes state ((name, v) :: entries) state'

def Members.Take (m : Members σ) (takes : σ → String → List Char → σ → Prop) : Prop :=
  ∀ {b c v rest left : List Char} {state state' : σ} {name : String}, Blanks b → Blanks c →
    Written .value v → Stops rest →
      (m.member state name (b ++ ':' :: (c ++ (v ++ rest))) = .ok (state', left) ↔
        takes state name v state' ∧ left = rest)

variable {takes : σ → String → List Char → σ → Prop}

theorem Members.read_entry {v : List Char} (take : m.Take takes) (first : Bool)
    (before : Blanks b) (entry : Entry name v s) : ∃ d, Blanks d ∧ ∀ {rest}, Stops rest → ∀ state state' left,
      (m.read first state (b ++ (comma first ++ (s ++ rest))) = .ok (state', left) ↔
        ∃ state₁, takes state name v state₁ ∧
          m.read false state₁ (d ++ rest) = .ok (state', left)) := by
  obtain ⟨blanks, ⟨spelled⟩, behind, between, written, after⟩ := entry
  refine ⟨_, after, fun stops state state' left => ?_⟩
  simp only [List.append_assoc, List.cons_append, List.nil_append]
  rw [read_iff (nextKey_item before blanks) (readChars_spelled spelled)]
  simp only [take behind between written (stops_blanks after stops), List.reverse_nil,
    List.nil_append, String.ofList_toList]
  constructor
  · rintro ⟨state₁, _, ⟨taken, rfl⟩, more⟩
    exact ⟨state₁, taken, more⟩
  · rintro ⟨state₁, taken, more⟩
    exact ⟨state₁, _, ⟨taken, rfl⟩, more⟩

/-- The members of an object are read if each can be taken, up to the blanks before its end: by
induction on the members, whatever was taken before them. -/
theorem Members.read_entries (take : m.Take takes) (first : Bool) (written : Entries entries s)
    (before : Blanks b) :
    ∃ d, Blanks d ∧ ∀ state state' left,
      m.read first state (b ++ (comma first ++ (s ++ '\x7d' :: rest))) = .ok (state', left) ↔
        Along takes state entries state' ∧ left = d ++ '\x7d' :: rest := by
  induction written generalizing first b with
  | one entry =>
    obtain ⟨d, after, taken⟩ := read_entry take first before entry
    refine ⟨d, after, fun state state' left => ?_⟩
    refine (taken (stops_close .object) state state' left).trans ?_
    simp only [Frame.closing, read_of_none (nextKey_end after), Except.ok.injEq, Prod.mk.injEq]
    constructor
    · rintro ⟨_, here, rfl, rfl⟩
      exact ⟨.some here .none, rfl⟩
    · rintro ⟨_ | ⟨here, _ | _⟩, rfl⟩
      exact ⟨_, here, rfl, rfl⟩
  | @more _ _ _ s _ entry _ ih =>
    obtain ⟨d, after, taken⟩ := read_entry take first before entry
    obtain ⟨e, close, later⟩ := ih false after
    refine ⟨e, close, fun state state' left => ?_⟩
    rw [List.append_assoc, List.cons_append, taken stops_comma]
    have next (state : σ) := later state state' left
    simp only [comma, Bool.false_eq_true, if_false, List.singleton_append] at next
    simp only [next]
    constructor
    · rintro ⟨_, here, there, rfl⟩
      exact ⟨.some here there, rfl⟩
    · rintro ⟨_ | ⟨here, there⟩, rfl⟩
      exact ⟨_, here, there, rfl⟩

end Objects

end ModuleTree.Json
