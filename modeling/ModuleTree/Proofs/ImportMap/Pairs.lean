import Mathlib.Data.List.Forall2
import ModuleTree.Proofs.ImportMap
/- Which texts are import maps, and what they map. Every piece between commas has to be a pair; the
   last pair of a path counts, and the first piece that is no pair is blamed. A text behind another
   one gives its map on top of the other. -/
namespace ModuleTree

theorem Dictionary.get?_ofList {α : Type} (entries : List (String × α)) (key : String) :
    (ofList entries).get? key = entries.reverse.lookup key := by
  induction entries using List.reverseRecOn with
  | nil => rfl
  | append_singleton entries entry ih =>
    rw [ofList_concat, get?_insert, ih, List.reverse_concat, lookup_cons_ite]

namespace ImportMap

/-- What stands between the commas of a text. Nothing at all does not count. -/
def pieces (text : String) : List (List Char) := (text.toList.splitOn ',').filter (· ≠ [])

def WellFormed (letters : List Char) : Prop := ∃ pair, Spells letters pair

inductive LastGlobal (pieces : List (List Char)) (path : String) : Option String → Prop where
  | found {front rest : List (List Char)} {letters : List Char} {global : String}
      (whole : pieces = front ++ letters :: rest) (own : Spells letters (path, global))
      (last : ∀ later ∈ rest, ∀ other, ¬Spells later (path, other)) :
      LastGlobal pieces path (some global)
  | nowhere (missing : ∀ letters ∈ pieces, ∀ global, ¬Spells letters (path, global)) :
      LastGlobal pieces path none

structure FirstBad (pieces : List (List Char)) (bad : List Char) : Prop where
  place : ∃ front rest, pieces = front ++ bad :: rest ∧ ∀ letters ∈ front, WellFormed letters
  ill : ¬WellFormed bad

/-- What is read of a text that goes on with another one behind a comma. -/
inductive Overridden : (first second whole : Except UsageError ImportMap) → Prop where
  | first (e : UsageError) (second : Except UsageError ImportMap) :
      Overridden (.error e) second (.error e)
  | second (m : ImportMap) (e : UsageError) : Overridden (.ok m) (.error e) (.error e)
  | both {lower upper both : ImportMap}
      (above : ∀ path, both.get? path = (upper.get? path).or (lower.get? path)) :
      Overridden (.ok lower) (.ok upper) (.ok both)

variable {pair : String × String} {text : String} {m : ImportMap} {letters : List Char}
  {pieces_ : List (List Char)} {entries : List (String × String)} {path global : String}

theorem spells_unique {pair' : String × String} (spells : Spells letters pair)
    (spells' : Spells letters pair') : pair = pair' :=
  Option.some.inj ((ofPiece?_of_spells spells).symm.trans (ofPiece?_of_spells spells'))

theorem ofPiece?_eq_none_iff : ofPiece? letters = none ↔ ¬WellFormed letters := by
  rw [Option.eq_none_iff_forall_ne_some, WellFormed, not_exists]
  exact forall_congr' fun pair => not_congr ofPiece?_eq_some_iff

section Pairs

theorem pairs_eq_ok_iff : pairs pieces_ = .ok entries ↔ List.Forall₂ Spells pieces_ entries := by
  induction pieces_ generalizing entries with
  | nil => simp [pairs, eq_comm]
  | cons letters rest ih =>
    rw [List.forall₂_cons_left_iff]
    cases own : ofPiece? letters with
    | none =>
      have bad := ofPiece?_eq_none_iff.mp own
      simp only [pairs, own, reduceCtorEq, false_iff]
      rintro ⟨pair, _, spells, _⟩
      exact bad ⟨pair, spells⟩
    | some pair =>
      have spells := spells_of_ofPiece? own
      cases later : pairs rest with
      | error bad =>
        simp only [pairs, own, later, reduceCtorEq, false_iff]
        rintro ⟨_, more, _, told, _⟩
        exact absurd (later.symm.trans (ih.mpr told)) (by simp)
      | ok more =>
        simp only [pairs, own, later, Except.ok.injEq]
        constructor
        · rintro rfl
          exact ⟨pair, more, spells, ih.mp later, rfl⟩
        · rintro ⟨pair', more', spells', told, rfl⟩
          rw [spells_unique spells spells', Except.ok.inj (later.symm.trans (ih.mpr told))]

theorem pairs_eq_error_iff {bad : String} :
    pairs pieces_ = .error bad ↔ ∃ letters, FirstBad pieces_ letters ∧ bad = .ofList letters := by
  induction pieces_ with
  | nil =>
    simp only [pairs, reduceCtorEq, false_iff]
    rintro ⟨letters, ⟨⟨front, rest, whole, _⟩, _⟩, _⟩
    simp at whole
  | cons letters rest ih =>
    cases own : ofPiece? letters with
    | none =>
      have ill := ofPiece?_eq_none_iff.mp own
      simp only [pairs, own, Except.error.injEq]
      constructor
      · rintro rfl
        exact ⟨letters, ⟨⟨[], rest, rfl, by simp⟩, ill⟩, rfl⟩
      · rintro ⟨letters', ⟨⟨front, rest', whole, fine⟩, _⟩, rfl⟩
        cases front with
        | nil =>
          cases whole
          rfl
        | cons first front =>
          cases whole
          exact absurd (fine letters List.mem_cons_self) ill
    | some pair =>
      have well : WellFormed letters := ⟨pair, spells_of_ofPiece? own⟩
      have on : pairs (letters :: rest) = .error bad ↔ pairs rest = .error bad := by
        cases later : pairs rest <;> simp [pairs, own, later]
      rw [on, ih]
      constructor
      · rintro ⟨letters', ⟨⟨front, rest', whole, fine⟩, ill⟩, same⟩
        exact ⟨letters', ⟨⟨letters :: front, rest', by rw [whole, List.cons_append],
          List.forall_mem_cons.mpr ⟨well, fine⟩⟩, ill⟩, same⟩
      · rintro ⟨letters', ⟨⟨front, rest', whole, fine⟩, ill⟩, same⟩
        cases front with
        | nil =>
          cases whole
          exact absurd well ill
        | cons first front =>
          cases whole
          exact ⟨letters', ⟨⟨front, rest', rfl, (List.forall_mem_cons.mp fine).2⟩, ill⟩, same⟩

theorem pairs_append (first second : List (List Char)) :
    pairs (first ++ second) =
      (pairs first).bind fun entries => (pairs second).map fun more => entries ++ more := by
  induction first with
  | nil => cases later : pairs second <;> simp [pairs, later, Except.bind, Except.map]
  | cons letters rest ih =>
    rw [List.cons_append, pairs, pairs, ih]
    cases ofPiece? letters with
    | none => rfl
    | some pair => cases pairs rest <;> cases pairs second <;> rfl

end Pairs

section Text

theorem listed_eq (text : String) : listed text = pairs (pieces text) := by
  rw [listed, Text.split_eq_splitOn, pieces]
  congr 2
  funext letters
  cases letters <;> rfl

theorem read_eq (text : String) :
    ImportMap.read text = ((pairs (pieces text)).map .ofList).mapError .malformedImport := by
  rw [← listed_eq]
  rfl

theorem pieces_append (s t : String) : pieces (s ++ "," ++ t) = pieces s ++ pieces t := by
  have whole : (s ++ "," ++ t).toList = s.toList ++ ',' :: t.toList := by simp
  rw [pieces, whole, List.splitOn_append_cons_self, List.filter_append, pieces, pieces]

theorem read_eq_ok_iff : ImportMap.read text = .ok m ↔
    ∃ entries, List.Forall₂ Spells (pieces text) entries ∧ m = .ofList entries := by
  rw [read_eq]
  cases found : pairs (pieces text) with
  | error bad =>
    simp only [Except.map, Except.mapError, reduceCtorEq, false_iff]
    rintro ⟨entries, told, _⟩
    cases found.symm.trans (pairs_eq_ok_iff.mpr told)
  | ok entries =>
    simp only [Except.map, Except.mapError, Except.ok.injEq]
    constructor
    · rintro rfl
      exact ⟨entries, pairs_eq_ok_iff.mp found, rfl⟩
    · rintro ⟨entries', told, rfl⟩
      rw [Except.ok.inj (found.symm.trans (pairs_eq_ok_iff.mpr told))]

theorem read_eq_error_iff {e : UsageError} : ImportMap.read text = .error e ↔
    ∃ letters, FirstBad (pieces text) letters ∧ e = .malformedImport (.ofList letters) := by
  rw [read_eq]
  cases found : pairs (pieces text) with
  | error bad =>
    simp only [Except.map, Except.mapError, Except.error.injEq]
    constructor
    · rintro rfl
      obtain ⟨letters, first, rfl⟩ := pairs_eq_error_iff.mp found
      exact ⟨letters, first, rfl⟩
    · rintro ⟨letters, first, rfl⟩
      rw [Except.error.inj (found.symm.trans (pairs_eq_error_iff.mpr ⟨letters, first, rfl⟩))]
  | ok entries =>
    simp only [Except.map, Except.mapError, reduceCtorEq, false_iff]
    rintro ⟨letters, first, _⟩
    cases found.symm.trans (pairs_eq_error_iff.mpr ⟨letters, first, rfl⟩)

end Text

theorem lastGlobal_of_told (told : List.Forall₂ Spells pieces_ entries) (path : String) :
    LastGlobal pieces_ path ((Dictionary.ofList entries).get? path) := by
  rw [Dictionary.get?_ofList]
  induction told with
  | nil => exact .nowhere (by simp)
  | @cons letters entry rest entries spells told ih =>
    rw [List.reverse_cons, List.lookup_append, Dictionary.lookup_cons_ite]
    generalize entries.reverse.lookup path = later at ih
    cases ih with
    | found whole own last =>
      exact .found (by rw [whole, List.cons_append]) own last
    | nowhere missing =>
      obtain ⟨key, global⟩ := entry
      by_cases here : path = key
      · subst here
        rw [if_pos rfl]
        exact .found (List.nil_append _).symm spells missing
      · rw [if_neg here]
        refine .nowhere (List.forall_mem_cons.mpr ⟨fun other spells' => ?_, missing⟩)
        exact here (congrArg Prod.fst (spells_unique spells' spells))

theorem wellFormed_of_told (told : List.Forall₂ Spells pieces_ entries) :
    ∀ letters ∈ pieces_, WellFormed letters := by
  induction told with
  | nil => simp
  | cons spells _ ih => exact List.forall_mem_cons.mpr ⟨⟨_, spells⟩, ih⟩

theorem read_ok_iff (text : String) :
    (∃ m, ImportMap.read text = .ok m) ↔ ∀ letters ∈ pieces text, WellFormed letters := by
  constructor
  · rintro ⟨m, read⟩
    obtain ⟨entries, told, _⟩ := read_eq_ok_iff.mp read
    exact wellFormed_of_told told
  · intro fine
    cases read : ImportMap.read text with
    | ok m => exact ⟨m, rfl⟩
    | error e =>
      obtain ⟨letters, ⟨⟨front, rest, whole, _⟩, ill⟩, _⟩ := read_eq_error_iff.mp read
      exact absurd (fine letters (by simp [whole])) ill

theorem overridden_read (s t : String) :
    Overridden (ImportMap.read s) (ImportMap.read t) (ImportMap.read (s ++ "," ++ t)) := by
  rw [read_eq s, read_eq t, read_eq (s ++ "," ++ t), pieces_append, pairs_append]
  cases pairs (pieces s) with
  | error bad => exact .first _ _
  | ok lower =>
    cases pairs (pieces t) with
    | error bad => exact .second _ _
    | ok upper =>
      refine .both fun path => ?_
      rw [Dictionary.get?_ofList, Dictionary.get?_ofList, Dictionary.get?_ofList,
        List.reverse_append, List.lookup_append]

/-- A text is read as a map just when its pieces are pairs, and then each path is mapped to the
last global given for it; else the first piece that is no pair is blamed. Whatever text comes
behind a comma overrides the one in front, whose error comes first. -/
theorem map_told_by_pieces (s : String) :
    ((∃ m, ImportMap.read s = .ok m) ↔ ∀ letters ∈ pieces s, WellFormed letters) ∧
      (∀ m, ImportMap.read s = .ok m → ∀ path, LastGlobal (pieces s) path (m.get? path)) ∧
      (∀ e, ImportMap.read s = .error e ↔
        ∃ letters, FirstBad (pieces s) letters ∧ e = .malformedImport (.ofList letters)) ∧
      ∀ t, Overridden (ImportMap.read s) (ImportMap.read t) (ImportMap.read (s ++ "," ++ t)) := by
  refine ⟨read_ok_iff s, fun m read path => ?_, fun e => read_eq_error_iff, overridden_read s⟩
  obtain ⟨entries, told, rfl⟩ := read_eq_ok_iff.mp read
  exact lastGlobal_of_told told path

example : ImportMap.read "a:1,:x,,a:2,b,c:" = .error (.malformedImport ":x") := by rfl

end ImportMap

end ModuleTree
