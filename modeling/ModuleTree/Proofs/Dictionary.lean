import Mathlib.Data.List.Induction
import ModuleTree.Dictionary
/- What a dictionary holds after an insertion, and after many. A dictionary made from
   entries with distinct keys holds just these entries, in whatever order they came. -/
namespace ModuleTree.Dictionary

variable {α : Type}

def keys (m : Dictionary α) : List String := m.entries.map Prod.fst

theorem lookup_cons_ite {κ : Type} [BEq κ] [LawfulBEq κ] [DecidableEq κ] (query : κ)
    (entry : κ × α) (rest : List (κ × α)) : (entry :: rest).lookup query =
      if query = entry.1 then some entry.2 else rest.lookup query := by
  obtain ⟨key, value⟩ := entry
  by_cases here : query = key
  · simp [here]
  · simp [List.lookup_cons, beq_false_of_ne here, here]

theorem lookup_put (key query : String) (value : α) (entries : List (String × α)) :
    (put key value entries).lookup query =
      if query = key then some value else entries.lookup query := by
  induction entries with
  | nil => simp only [put, lookup_cons_ite]
  | cons first rest ih =>
    simp only [put]
    split
    · simp only [lookup_cons_ite]
    · split
      · rename_i before after
        by_cases here : query = first.1
        · have ne : query ≠ key := by
            intro same
            rw [← here, same] at after
            exact String.lt_irrefl key after
          simp only [lookup_cons_ite, if_pos here, if_neg ne]
        · simp only [lookup_cons_ite, if_neg here, ih]
      · rename_i notBefore notAfter
        have same := key_eq_of_not_lt notBefore notAfter
        by_cases here : query = key
        · simp only [lookup_cons_ite, if_pos here]
        · simp only [lookup_cons_ite, ← same, if_neg here]

theorem get?_insert (m : Dictionary α) (key query : String) (value : α) :
    (m.insert key value).get? query = if query = key then some value else m.get? query :=
  lookup_put key query value m.entries

theorem put_perm {key : String} {value : α} {entries : List (String × α)}
    (fresh : key ∉ entries.map Prod.fst) :
    (put key value entries).Perm ((key, value) :: entries) := by
  induction entries with
  | nil => exact .refl _
  | cons first rest ih =>
    simp only [List.map_cons, List.mem_cons, not_or] at fresh
    simp only [put]
    split
    · exact .refl _
    · split
      · exact (List.Perm.cons first (ih fresh.2)).trans (.swap _ _ _)
      · rename_i notBefore notAfter
        exact absurd (key_eq_of_not_lt notBefore notAfter) fresh.1

theorem mem_keys_iff (m : Dictionary α) (key : String) :
    key ∈ m.keys ↔ (m.get? key).isSome := by
  simp only [keys, get?]
  induction m.entries with
  | nil => simp
  | cons first rest ih =>
    rw [lookup_cons_ite]
    by_cases here : key = first.1
    · simp [here]
    · simp [here, ih]

theorem ofList_concat (entries : List (String × α)) (entry : String × α) :
    ofList (entries ++ [entry]) = (ofList entries).insert entry.1 entry.2 := by
  simp [ofList]

theorem isSome_get?_ofList (entries : List (String × α)) (key : String) :
    ((ofList entries).get? key).isSome ↔ key ∈ entries.map Prod.fst := by
  induction entries using List.reverseRecOn with
  | nil => simp [ofList, get?, empty]
  | append_singleton entries entry ih =>
    rw [ofList_concat, get?_insert]
    by_cases here : key = entry.1 <;> simp_all

theorem ofList_perm {entries : List (String × α)} (distinct : (entries.map Prod.fst).Nodup) :
    (ofList entries).entries.Perm entries := by
  induction entries using List.reverseRecOn with
  | nil => exact .refl _
  | append_singleton entries entry ih =>
    rw [List.map_append, List.nodup_append] at distinct
    have fresh : entry.1 ∉ (ofList entries).keys := by
      rw [mem_keys_iff, isSome_get?_ofList]
      intro mem
      exact distinct.2.2 entry.1 mem entry.1 (by simp) rfl
    rw [ofList_concat]
    calc (put entry.1 entry.2 (ofList entries).entries).Perm
            ((entry.1, entry.2) :: (ofList entries).entries) := put_perm fresh
      _ |>.Perm (entry :: entries) := (ih distinct.1).cons entry
      _ |>.Perm (entries ++ [entry]) := (List.perm_append_singleton entry entries).symm

theorem keys_nodup (m : Dictionary α) : m.keys.Nodup := by
  refine List.Pairwise.map Prod.fst (fun a b before same => ?_) m.ascending
  rw [same] at before
  exact String.lt_irrefl _ before

theorem eq_of_perm {a b : Dictionary α} (perm : a.entries.Perm b.entries) : a = b := by
  have same : a.entries = b.entries := by
    refine List.Perm.eq_of_pairwise (fun x y _ _ above below => ?_) a.ascending b.ascending perm
    exact absurd (String.lt_trans above below) (String.lt_irrefl _)
  cases a; cases b
  simp_all

theorem eq_empty {m : Dictionary α} (none : m.isEmpty = true) : m = empty := by
  obtain ⟨entries, ascending⟩ := m
  obtain rfl : entries = [] := by simpa [isEmpty] using none
  rfl

theorem ofList_entries (m : Dictionary α) : ofList m.entries = m := eq_of_perm (ofList_perm m.keys_nodup)

end ModuleTree.Dictionary
