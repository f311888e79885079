import Mathlib.Data.List.TakeWhile
import ModuleTree.Proofs.Dictionary
import ModuleTree.Proofs.Text.ByteOrder
import ModuleTree.Usage
/- Import maps and their texts. A map that was read holds paths and globals that no separator
   breaks up, and the text of such a map is read as the map itself. -/
namespace ModuleTree

theorem Text.split_eq_splitOn (separator : Char) (text : List Char) :
    Text.split separator text = text.splitOn separator := by
  induction text with
  | nil => simp [Text.split]
  | cons c text ih =>
    rw [Text.split, List.splitOn_cons_eq_if_modifyHead, ih]
    by_cases here : c = separator
    · simp [here]
    · rw [if_neg here, if_neg (by simpa using here)]
      cases pieces : text.splitOn separator with
      | nil => exact absurd pieces (List.splitOn_ne_nil separator text)
      | cons piece pieces => rfl

theorem Text.separator_not_mem {separator : Char} {text piece : List Char}
    (mem : piece ∈ Text.split separator text) : separator ∉ piece := by
  induction text generalizing piece with
  | nil => simp_all [Text.split]
  | cons c text ih =>
    rw [Text.split] at mem
    split at mem
    · rcases List.mem_cons.mp mem with rfl | later
      · exact List.not_mem_nil
      · exact ih later
    · rename_i apart
      split at mem
      · rw [List.mem_singleton.mp mem, List.mem_singleton]
        exact Ne.symm apart
      · rename_i first pieces split
        rw [split] at ih
        rcases List.mem_cons.mp mem with rfl | later
        · exact List.not_mem_cons_of_ne_of_not_mem (Ne.symm apart) (ih List.mem_cons_self)
        · exact ih (List.mem_cons_of_mem first later)

theorem Dictionary.mem_of_mem_ofList {α : Type} {entries : List (String × α)} {entry : String × α}
    (mem : entry ∈ (ofList entries).entries) : entry ∈ entries := by
  induction entries using List.reverseRecOn with
  | nil => cases mem
  | append_singleton entries last ih =>
    rw [ofList_concat] at mem
    rcases mem_put mem with same | earlier
    · simp [same]
    · exact List.mem_append_left _ (ih earlier)

namespace ImportMap

structure IsPair (pair : String × String) : Prop where
  path_ne : pair.1.toList ≠ []
  path_comma : ',' ∉ pair.1.toList
  path_colon : ':' ∉ pair.1.toList
  global_ne : pair.2.toList ≠ []
  global_comma : ',' ∉ pair.2.toList

def piece (pair : String × String) : List Char := pair.1.toList ++ ':' :: pair.2.toList

variable {pair : String × String} {text : String} {m : ImportMap}

/-- A piece stands for a pair: around its first colon are the path and the global, neither of
them empty. -/
structure Spells (letters : List Char) (pair : String × String) : Prop where
  whole : letters = piece pair
  path_ne : pair.1.toList ≠ []
  path_colon : ':' ∉ pair.1.toList
  global_ne : pair.2.toList ≠ []

theorem ofPiece?_of_spells {letters : List Char} (spells : Spells letters pair) :
    ofPiece? letters = some pair := by
  have plain : ∀ c ∈ pair.1.toList, decide (c ≠ ':') = true :=
    fun c mem => decide_eq_true fun colon => spells.path_colon (colon ▸ mem)
  have upTo : letters.takeWhile (· ≠ ':') = pair.1.toList := by
    rw [spells.whole, piece, List.takeWhile_append_of_pos plain]
    simp
  have behind : letters.dropWhile (· ≠ ':') = ':' :: pair.2.toList := by
    rw [spells.whole, piece, List.dropWhile_append_of_pos plain]
    simp
  have filled : (pair.1.toList.isEmpty || pair.2.toList.isEmpty) = false := by
    simp [spells.path_ne, spells.global_ne]
  simp only [ofPiece?, upTo, behind, filled, String.ofList_toList]
  rfl

theorem spells_of_ofPiece? {letters : List Char} (found : ofPiece? letters = some pair) :
    Spells letters pair := by
  have whole := List.takeWhile_append_dropWhile (p := (· ≠ ':')) (l := letters)
  unfold ofPiece? at found
  cases behind : letters.dropWhile (· ≠ ':') with
  | nil => simp only [behind, reduceCtorEq] at found
  | cons first global =>
    have colon : first = ':' := by
      have loud := List.head_dropWhile_not (· ≠ ':') (l := letters)
        (by rw [behind]; exact List.cons_ne_nil _ _)
      simp only [behind] at loud
      exact Decidable.of_not_not (of_decide_eq_false loud)
    subst colon
    simp only [behind, Option.ite_none_left_eq_some, Bool.or_eq_true, List.isEmpty_iff, not_or,
      Option.some.injEq] at found
    obtain ⟨⟨pathNe, globalNe⟩, rfl⟩ := found
    rw [behind] at whole
    constructor
    · simpa [piece] using whole.symm
    · simpa using pathNe
    · simp only [String.toList_ofList]
      intro mem
      simpa using List.mem_takeWhile_imp mem
    · simpa using globalNe

theorem ofPiece?_eq_some_iff {letters : List Char} :
    ofPiece? letters = some pair ↔ Spells letters pair :=
  ⟨spells_of_ofPiece?, ofPiece?_of_spells⟩

theorem ofPiece?_piece (valid : IsPair pair) : ofPiece? (piece pair) = some pair :=
  ofPiece?_of_spells ⟨rfl, valid.path_ne, valid.path_colon, valid.global_ne⟩

theorem isPair_of_ofPiece? {letters : List Char} (comma : ',' ∉ letters)
    (found : ofPiece? letters = some pair) : IsPair pair := by
  have spells := spells_of_ofPiece? found
  rw [spells.whole, piece] at comma
  simp only [List.mem_append, List.mem_cons, not_or] at comma
  exact ⟨spells.path_ne, comma.1, spells.path_colon, spells.global_ne, comma.2.2⟩

theorem pairs_piece {entries : List (String × String)} (valid : ∀ pair ∈ entries, IsPair pair) :
    pairs (entries.map piece) = .ok entries := by
  induction entries with
  | nil => rfl
  | cons pair entries ih =>
    obtain ⟨first, others⟩ := List.forall_mem_cons.mp valid
    simp only [List.map_cons, pairs, ofPiece?_piece first, ih others]

theorem isPair_of_pairs {pieces : List (List Char)} {entries : List (String × String)}
    (commas : ∀ letters ∈ pieces, ',' ∉ letters) (found : pairs pieces = .ok entries) :
    ∀ pair ∈ entries, IsPair pair := by
  induction pieces generalizing entries with
  | nil =>
    cases found
    simp
  | cons letters pieces ih =>
    obtain ⟨first, others⟩ := List.forall_mem_cons.mp commas
    cases own : ofPiece? letters with
    | none => simp [pairs, own] at found
    | some pair =>
      cases rest : pairs pieces with
      | error bad => simp [pairs, own, rest] at found
      | ok more =>
        simp only [pairs, own, rest, Except.ok.injEq] at found
        subst found
        exact List.forall_mem_cons.mpr ⟨isPair_of_ofPiece? first own, ih others rest⟩

theorem isPair_of_read (read : ImportMap.read text = .ok m) : ∀ pair ∈ m.entries, IsPair pair := by
  unfold ImportMap.read ofText at read
  cases found : pairs ((Text.split ',' text.toList).filter (!·.isEmpty)) with
  | error bad => simp [found, Except.map, Except.mapError] at read
  | ok entries =>
    simp only [found, Except.map, Except.mapError, Except.ok.injEq] at read
    subst read
    have commas : ∀ letters ∈ (Text.split ',' text.toList).filter (!·.isEmpty), ',' ∉ letters :=
      fun letters mem => Text.separator_not_mem (List.mem_filter.mp mem).1
    exact fun pair mem => isPair_of_pairs commas found pair (Dictionary.mem_of_mem_ofList mem)

theorem split_text (m : ImportMap) (valid : ∀ pair ∈ m.entries, IsPair pair) :
    (Text.split ',' (ImportMap.text m).toList).filter (!·.isEmpty) = m.entries.map piece := by
  have letters : (ImportMap.text m).toList = [','].intercalate (m.entries.map piece) := by
    rw [ImportMap.text, String.toList_intercalate, List.map_map]
    congr 1
    exact List.map_congr_left fun pair _ => by simp [piece]
  rw [letters, Text.split_eq_splitOn]
  cases entries : m.entries with
  | nil => simp
  | cons first rest =>
    rw [entries] at valid
    rw [List.splitOn_intercalate]
    · refine List.filter_eq_self.mpr fun letters mem => ?_
      obtain ⟨pair, _, rfl⟩ := List.mem_map.mp mem
      simp [piece]
    · intro letters mem
      obtain ⟨pair, there, rfl⟩ := List.mem_map.mp mem
      have plain := valid pair there
      simp [piece, plain.path_comma, plain.global_comma]
    · simp

def listed (text : String) : Except String (List (String × String)) :=
  pairs ((Text.split ',' text.toList).filter (!·.isEmpty))

theorem listed_text (read : ImportMap.read text = .ok m) :
    listed (ImportMap.text m) = .ok m.entries := by
  have valid := isPair_of_read read
  rw [listed, split_text m valid, pairs_piece valid]

theorem read_text (read : ImportMap.read text = .ok m) :
    ImportMap.read (ImportMap.text m) = .ok m := by
  have pairs := listed_text read
  rw [listed] at pairs
  rw [ImportMap.read, ofText, pairs]
  simp only [Except.map, Except.mapError, Dictionary.ofList_entries]

theorem paths_ascending (m : ImportMap) :
    (m.entries.map fun pair => Text.encode pair.1).Pairwise (· < ·) :=
  List.pairwise_map.mpr (m.ascending.imp Text.encode_lt)

/-- Whatever text a map was read as, its own text is read as the map again and so is not changed
by another reading. It lists the pairs of the map by ascending paths, none of them twice, and
tells the map from every other that is read. -/
theorem text_tells_map (read : ImportMap.read text = .ok m) :
    ImportMap.read m.text = .ok m ∧
      (ImportMap.read m.text).map ImportMap.text = .ok m.text ∧
      (∃ pairs, listed m.text = .ok pairs ∧ m = .ofList pairs ∧
        (pairs.map fun pair => Text.encode pair.1).Pairwise (· < ·) ∧ (pairs.map Prod.fst).Nodup) ∧
      ∀ text' m', ImportMap.read text' = .ok m' → (m.text = m'.text ↔ m = m') := by
  have again := read_text read
  refine ⟨again, by rw [again, Except.map], ⟨m.entries, listed_text read,
    (Dictionary.ofList_entries m).symm, paths_ascending m, m.keys_nodup⟩, ?_⟩
  intro text' m' read'
  constructor
  · intro same
    rw [same, read_text read'] at again
    exact (Except.ok.inj again).symm
  · rintro rfl
    rfl

def scattered : String := ",react:React,,jquery:old,d3:lib:d3,jquery:$,"

theorem text_tells_scattered_map :
    ImportMap.read scattered =
        .ok (.ofList [("d3", "lib:d3"), ("jquery", "$"), ("react", "React")]) ∧
      ImportMap.read "d3:lib:d3,jquery:$,react:React" =
        .ok (.ofList [("d3", "lib:d3"), ("jquery", "$"), ("react", "React")]) ∧
      ∃ pairs, listed "d3:lib:d3,jquery:$,react:React" = .ok pairs ∧
        (pairs.map fun pair => Text.encode pair.1).Pairwise (· < ·) := by
  have read : ImportMap.read scattered =
      .ok (.ofList [("d3", "lib:d3"), ("jquery", "$"), ("react", "React")]) := by rfl
  obtain ⟨again, _, ⟨pairs, told, _, ascending, _⟩, _⟩ := text_tells_map read
  exact ⟨read, again, pairs, told, ascending⟩

end ImportMap

end ModuleTree
