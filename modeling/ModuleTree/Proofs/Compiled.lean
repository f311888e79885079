import Mathlib.Data.List.TakeWhile
import ModuleTree.Compiled
import ModuleTree.Proofs.Json.RoundTrip
/- What is read of a compiler's answer: its code and its dependencies, however the answer is laid
   out and whatever else it holds; nothing when they are missing, repeated or of another kind. -/
namespace ModuleTree.Compiled
open Json

section Members

variable {a b c v s rest left : List Char} {known known' : Known} {name : String}
  {entries : List (String × List Char)}

inductive Takes (known : Known) (name : String) (v : List Char) : Known → Prop where
  | code {text : String} (called : name = "code") (first : known.code = none)
      (quotes : Quotes text v) : Takes known name v { known with code := some text }
  | dependencies {names : List String} (called : name = "dependencies")
      (first : known.dependencies = none) (enlists : Enlists names v) :
      Takes known name v { known with dependencies := some names }
  | other (code : name ≠ "code") (dependencies : name ≠ "dependencies") : Takes known name v known

theorem afterColon_append {α : Type} {read : List Char → Read α} (blanks : Blanks b) :
    afterColon read (b ++ ':' :: s) = read s := by
  rw [afterColon, skipColon_append blanks]

theorem map_eq_ok {α β : Type} {found : Except Fault α} {keep : α → β} {kept : β} :
    found.map keep = .ok kept ↔ ∃ x, found = .ok x ∧ keep x = kept := by
  cases found <;> simp [Except.map]

theorem take_first {α : Type} {read : List Char → Read α} {tells : α → List Char → Prop}
    (keep : α → Known) (behind : Blanks b)
    (reads : ∀ x left, read (c ++ (v ++ rest)) = .ok (x, left) ↔ tells x v ∧ left = rest) :
    afterColon (fun s => (read s).map fun found => (keep found.1, found.2))
        (b ++ ':' :: (c ++ (v ++ rest))) = .ok (known', left) ↔
      (∃ x, tells x v ∧ keep x = known') ∧ left = rest := by
  simp only [afterColon_append behind, map_eq_ok, Prod.exists, reads, Prod.mk.injEq]
  constructor
  · rintro ⟨x, _, ⟨tells, rfl⟩, same, rfl⟩
    exact ⟨⟨x, tells, same⟩, rfl⟩
  · rintro ⟨⟨x, tells, same⟩, rfl⟩
    exact ⟨x, left, ⟨tells, rfl⟩, same, rfl⟩

theorem takes_code : Takes known "code" v known' ↔
    known.code = none ∧ ∃ text, Quotes text v ∧ { known with code := some text } = known' := by
  constructor
  · intro taken
    cases taken with
    | code _ first quotes => exact ⟨first, _, quotes, rfl⟩
    | dependencies called => exact absurd called (by decide)
    | other code => exact absurd rfl code
  · rintro ⟨first, text, quotes, rfl⟩
    exact .code rfl first quotes

theorem takes_dependencies : Takes known "dependencies" v known' ↔
    known.dependencies = none ∧
      ∃ names, Enlists names v ∧ { known with dependencies := some names } = known' := by
  constructor
  · intro taken
    cases taken with
    | code called => exact absurd called (by decide)
    | dependencies _ first enlists => exact ⟨first, _, enlists, rfl⟩
    | other _ dependencies => exact absurd rfl dependencies
  · rintro ⟨first, names, enlists, rfl⟩
    exact .dependencies rfl first enlists

theorem members_take : members.Take Takes := by
  intro b c v rest left known known' name behind between written stops
  have own : members.member = member := rfl
  rw [own]
  by_cases code : name = "code"
  · subst code
    rw [member, if_pos rfl, takes_code]
    cases known.code with
    | some => simp
    | none =>
      rw [eq_self, true_and]
      exact take_first (fun text => { known with code := some text }) behind
        fun _ _ => readString_iff between written
  by_cases dependencies : name = "dependencies"
  · subst dependencies
    rw [member, if_neg code, if_pos rfl, takes_dependencies]
    cases known.dependencies with
    | some => simp
    | none =>
      rw [eq_self, true_and]
      exact take_first (fun names => { known with dependencies := some names }) behind
        fun _ _ => readStringList_iff between written
  rw [member, if_neg code, if_neg dependencies, ignored, afterColon_append behind,
    skipValue_append between written stops]
  simp only [Except.map, Except.ok.injEq, Prod.mk.injEq]
  constructor
  · rintro ⟨rfl, rfl⟩
    exact ⟨.other code dependencies, rfl⟩
  · rintro ⟨taken, rfl⟩
    cases taken with
    | code called => exact absurd called code
    | dependencies called => exact absurd called dependencies
    | other => exact ⟨rfl, rfl⟩

end Members

section Named

variable {α : Type} {tells : α → List Char → Prop} {found found' : Option α}
  {values : List (List Char)} {entries : List (String × List Char)} {known known' : Known}

/-- What is known of a name from the values of its members: the first is taken, another one is
not. -/
def Once (tells : α → List Char → Prop) : Option α → List (List Char) → Option α → Prop
  | found, [], found' => found' = found
  | found, v :: values, found' =>
    found = none ∧ ∃ x, tells x v ∧ Once tells (some x) values found'

theorem once_none : Once tells none values found ↔
    values = [] ∧ found = none ∨ ∃ v x, values = [v] ∧ tells x v ∧ found = some x := by
  match values with
  | [] => simp [Once]
  | [v] => simp [Once]
  | v :: w :: values => simp [Once]

theorem named_cons (name key : String) (v : List Char) (entries : List (String × List Char)) :
    named name ((key, v) :: entries) =
      if key = name then v :: named name entries else named name entries := by
  by_cases same : key = name <;> simp [named, same]

theorem along_iff : Along Takes known entries known' ↔
    Once Quotes known.code (named "code" entries) known'.code ∧
      Once Enlists known.dependencies (named "dependencies" entries) known'.dependencies := by
  induction entries generalizing known with
  | nil =>
    constructor
    · rintro ⟨⟩
      exact ⟨rfl, rfl⟩
    · rintro ⟨code, dependencies⟩
      obtain ⟨code', dependencies'⟩ := known'
      cases code
      cases dependencies
      exact .none
  | cons entry entries ih =>
    obtain ⟨name, v⟩ := entry
    simp only [named_cons]
    constructor
    · rintro (_ | ⟨taken, rest⟩)
      obtain ⟨code, dependencies⟩ := ih.mp rest
      cases taken with
      | code called first quotes =>
        subst called
        exact ⟨⟨first, _, quotes, code⟩, dependencies⟩
      | dependencies called first enlists =>
        subst called
        exact ⟨code, ⟨first, _, enlists, dependencies⟩⟩
      | other unlike unlike' => simpa only [unlike, unlike', if_false] using ⟨code, dependencies⟩
    · rintro ⟨code, dependencies⟩
      by_cases known : name = "code"
      · subst known
        obtain ⟨first, text, quotes, code⟩ := code
        exact .some (.code rfl first quotes) (ih.mpr ⟨code, dependencies⟩)
      by_cases known' : name = "dependencies"
      · subst known'
        obtain ⟨first, names, enlists, dependencies⟩ := dependencies
        exact .some (.dependencies rfl first enlists) (ih.mpr ⟨code, dependencies⟩)
      rw [if_neg known] at code
      rw [if_neg known'] at dependencies
      exact .some (.other known known') (ih.mpr ⟨code, dependencies⟩)

end Named

section Objects

variable {a b s rest left tail : List Char} {m : Compiled} {entries : List (String × List Char)}

/-- An object that tells a module: its code once, its dependencies at most once. -/
structure Told (entries : List (String × List Char)) (m : Compiled) : Prop where
  code : ∃ v, named "code" entries = [v] ∧ Quotes m.code v
  dependencies : named "dependencies" entries = [] ∧ m.dependencies = [] ∨
    ∃ v, named "dependencies" entries = [v] ∧ Enlists m.dependencies v

theorem told_iff : Told entries m ↔ ∃ known, Along Takes {} entries known ∧
    known.code = some m.code ∧ known.dependencies.getD [] = m.dependencies := by
  simp only [along_iff, once_none]
  constructor
  · rintro ⟨⟨v, one, quotes⟩, ⟨absent, empty⟩ | ⟨w, once, enlists⟩⟩
    · exact ⟨⟨some m.code, none⟩, ⟨.inr ⟨v, _, one, quotes, rfl⟩, .inl ⟨absent, rfl⟩⟩, rfl,
        empty.symm⟩
    · exact ⟨⟨some m.code, some m.dependencies⟩,
        ⟨.inr ⟨v, _, one, quotes, rfl⟩, .inr ⟨w, _, once, enlists, rfl⟩⟩, rfl, rfl⟩
  · rintro ⟨known, ⟨told, listed⟩, code, same⟩
    constructor
    · rcases told with ⟨_, missing⟩ | ⟨v, text, one, quotes, found⟩
      · cases code.symm.trans missing
      · cases code.symm.trans found
        exact ⟨v, one, quotes⟩
    · rcases listed with ⟨absent, found⟩ | ⟨w, names, once, enlists, found⟩
      · rw [found] at same
        exact .inl ⟨absent, same.symm⟩
      · rw [found] at same
        exact .inr ⟨w, once, same ▸ enlists⟩

theorem read_iff (before : Blanks a) (object : Object entries s) :
    read (a ++ (s ++ rest)) = .ok (m, left) ↔ Told entries m ∧ left = rest := by
  have opened {s : List Char} : read (a ++ '\x7b' :: s) = readObject s := by
    rw [read, skipBlank_to before rfl]
    rfl
  cases object with
  | none blanks =>
    rw [List.append_assoc, List.cons_append, List.singleton_append, opened, readObject,
      Members.read_of_none (nextKey_end blanks)]
    constructor
    · intro found
      cases found
    · rintro ⟨⟨⟨v, absent, _⟩, _⟩, _⟩
      cases absent
  | @some s _ written =>
    obtain ⟨d, close, taken⟩ : ∃ d, Blanks d ∧ ∀ known known' left,
        members.read true known (s ++ '\x7d' :: rest) = .ok (known', left) ↔
          Along Takes known entries known' ∧ left = d ++ '\x7d' :: rest :=
      Members.read_entries members_take true written (List.forall_mem_nil _)
    rw [List.append_assoc, List.cons_append, List.singleton_append, opened, readObject]
    constructor
    · intro found
      split at found
      · cases found
      · rename_i known more read
        obtain ⟨along, rfl⟩ := (taken _ _ _).mp read
        split at found
        · cases found
        · rename_i code told
          rw [pastBrace_end close] at found
          cases found
          exact ⟨told_iff.mpr ⟨known, along, told, rfl⟩, rfl⟩
    · rintro ⟨told, rfl⟩
      obtain ⟨known, along, code, dependencies⟩ := told_iff.mp told
      rw [(taken _ _ _).mpr ⟨along, rfl⟩]
      simp only [code, dependencies, pastBrace_end close]

theorem error_of_ne_ok {α : Type} {found : Except Fault α} (never : ∀ x, found ≠ .ok x) :
    ∃ fault, found = .error fault := by
  cases found with
  | error fault => exact ⟨fault, rfl⟩
  | ok x => exact absurd rfl (never x)

theorem blanks_iff {s : List Char} : skipBlank s = [] ↔ Blanks s := List.dropWhile_eq_nil_iff

theorem ofJson_iff (before : Blanks a) (object : Object entries s) :
    ofJson (String.ofList (a ++ s ++ tail)) = .ok m ↔ Told entries m ∧ Blanks tail := by
  have read (m : Compiled) (left : List Char) :
      read (a ++ (s ++ tail)) = .ok (m, left) ↔ Told entries m ∧ left = tail :=
    read_iff before object
  rw [ofJson, readWhole, String.toList_ofList, List.append_assoc]
  constructor
  · intro found
    split at found
    · cases found
    · rename_i m' rest whole
      obtain ⟨told, rfl⟩ := (read m' rest).mp whole
      split at found
      · rename_i ends
        cases found
        exact ⟨told, blanks_iff.mp ends⟩
      · cases found
  · rintro ⟨told, blanks⟩
    rw [(read m tail).mpr ⟨told, rfl⟩]
    simp only [blanks_iff.mpr blanks]

/-- Members that tell no module or more than one: no code, a known name twice, a dependency that
is no string. -/
def Unclear (entries : List (String × List Char)) : Prop :=
  named "code" entries = [] ∨ 2 ≤ (named "code" entries).length ∨
    2 ≤ (named "dependencies" entries).length ∨
      ∃ w values v, w ∈ named "dependencies" entries ∧ Listed values w ∧ v ∈ values ∧
        ∀ text, ¬Quotes text v

theorem quotes_of_mem {texts : List String} {values : List (List Char)} {v : List Char}
    (quotes : List.Forall₂ Quotes texts values) (mem : v ∈ values) : ∃ text, Quotes text v := by
  induction quotes with
  | nil => cases mem
  | cons first _ ih =>
    rcases List.mem_cons.mp mem with rfl | mem
    · exact ⟨_, first⟩
    · exact ih mem

theorem not_told_of_unclear (unclear : Unclear entries) : ¬Told entries m := by
  rintro ⟨⟨v, one, _⟩, dependencies⟩
  rcases unclear with missing | twice | twice | ⟨w, values, x, mem, listed, within, other⟩
  · cases one.symm.trans missing
  · rw [one] at twice
    simp at twice
  · rcases dependencies with ⟨absent, _⟩ | ⟨w, once, _⟩
    · rw [absent] at twice
      simp at twice
    · rw [once] at twice
      simp at twice
  · rcases dependencies with ⟨absent, _⟩ | ⟨w', once, values', listed', quotes⟩
    · rw [absent] at mem
      cases mem
    · rw [once, List.mem_singleton] at mem
      subst mem
      -- However the list is taken apart, the same strings are read of it.
      have read : readStringList ([] ++ (w ++ [])) = .ok (m.dependencies, []) :=
        (readStringList_listed (List.forall_mem_nil _) listed').mpr ⟨quotes, rfl⟩
      obtain ⟨same, _⟩ := (readStringList_listed (List.forall_mem_nil _) listed).mp read
      obtain ⟨text, quotes⟩ := quotes_of_mem same within
      exact other text quotes

/-- An object is read as the module that its members tell, wherever they stand, however they are
spelled and laid out and whatever stands beside them; with members that are unclear, or with more
than blanks behind it, it is not read at all. -/
theorem object_tells_module (object : Object entries s) (before : Blanks a) :
    (∀ b, Blanks b → ∀ m, ofJson (String.ofList (a ++ s ++ b)) = .ok m ↔ Told entries m) ∧
      (Unclear entries → ∀ b, ∃ fault, ofJson (String.ofList (a ++ s ++ b)) = .error fault) ∧
      ∀ tail, ¬Blanks tail → ∃ fault, ofJson (String.ofList (a ++ s ++ tail)) = .error fault := by
  refine ⟨fun b blanks m => ?_, fun unclear b => error_of_ne_ok fun m found => ?_,
    fun tail more => error_of_ne_ok fun m found => ?_⟩
  · exact (ofJson_iff before object).trans (and_iff_left blanks)
  · exact not_told_of_unclear unclear ((ofJson_iff before object).mp found).1
  · exact more ((ofJson_iff before object).mp found).2

def escapedMembers : List (String × List Char) :=
  [("x", "[-0.5]".toList), ("code", "\"\\ud83d\\ude00\"".toList),
    ("dependencies", "[ \"b\" ]".toList)]

def escaped : List Char :=
  ("\x7b\"x\": [-0.5], \"c\\u006fde\": \"\\ud83d\\ude00\", " ++
    "\"dependencies\": [ \"b\" ]\x7d").toList

theorem quotes_halves : Quotes "😀" "\"\\ud83d\\ude00\"".toList := by
  have high : Quad ['d', '8', '3', 'd'] 0xD83D :=
    .digits (i := 13) (j := 8) (k := 3) (l := 13) rfl rfl rfl rfl
  have low : Quad ['d', 'e', '0', '0'] 0xDE00 :=
    .digits (i := 13) (j := 14) (k := 0) (l := 0) rfl rfl rfl rfl
  have spelled : Spelled "😀".toList "\\ud83d\\ude00".toList :=
    .cons (.pair high low (by decide) (by decide) (by decide)) .nil
  exact .quoted spelled

theorem quotes_numbered : Quotes "code" "\"c\\u006fde\"".toList := by
  have number : Quad ['0', '0', '6', 'f'] 'o'.toNat :=
    .digits (i := 0) (j := 0) (k := 6) (l := 15) rfl rfl rfl rfl
  have plain {c : Char} {cs s : List Char} (plain : IsPlain c) (rest : Spelled cs s) :
      Spelled (c :: cs) (c :: s) := .cons (.plain plain) rest
  have spelled : Spelled "code".toList "c\\u006fde".toList :=
    plain (by decide) (.cons (.unit number) (plain (by decide) (plain (by decide) .nil)))
  exact .quoted spelled

theorem listed_single : Listed [writeString "b"] "[ \"b\" ]".toList := by
  have blank : Blanks [' '] := by decide
  exact .some (.element blank (written_of_quotes (quotes_writeString "b")) blank)

theorem object_escaped : Object escapedMembers escaped := by
  have none : Blanks [] := by decide
  have blank : Blanks [' '] := by decide
  have half : Written .value "-0.5".toList :=
    .number (.mk (.inr rfl) .zero (.digits (c := '5') rfl (List.forall_mem_nil _)) .none)
  have unknown : Entry "x" "[-0.5]".toList "\"x\": [-0.5]".toList :=
    .mk none (quotes_writeString "x") none blank (.list (.element none half none)) none
  have code : Entry "code" "\"\\ud83d\\ude00\"".toList
      " \"c\\u006fde\": \"\\ud83d\\ude00\"".toList :=
    .mk blank quotes_numbered none blank (written_of_quotes quotes_halves) none
  have dependencies : Entry "dependencies" "[ \"b\" ]".toList
      " \"dependencies\": [ \"b\" ]".toList :=
    .mk blank (quotes_writeString "dependencies") none blank
      (.list (.element blank (written_of_quotes (quotes_writeString "b")) blank)) none
  exact .some (.more unknown (.more code (.one dependencies)))

theorem told_escaped : Told escapedMembers ⟨"😀", ["b"]⟩ :=
  ⟨⟨_, rfl, quotes_halves⟩,
    .inr ⟨_, rfl, _, listed_single, .cons (quotes_writeString "b") .nil⟩⟩

theorem object_tells_module_escaped :
    ofJson (String.ofList ([' '] ++ escaped ++ ['\n'])) = .ok ⟨"😀", ["b"]⟩ ∧
      ∃ fault, ofJson (String.ofList ([' '] ++ escaped ++ [','])) = .error fault := by
  have ⟨read, _, behind⟩ := object_tells_module (a := [' ']) object_escaped (by decide)
  exact ⟨(read ['\n'] (by decide) _).mpr told_escaped, behind [','] (by decide)⟩

end Objects

end ModuleTree.Compiled
