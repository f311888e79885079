/- Finite maps from texts, kept in ascending order of their keys. Two maps with the
   same entries are equal. -/
namespace ModuleTree

structure Dictionary (α : Type) where
  entries : List (String × α)
  ascending : entries.Pairwise (fun a b => a.1 < b.1)

namespace Dictionary

variable {α : Type}

def put (key : String) (value : α) : List (String × α) → List (String × α)
  | [] => [(key, value)]
  | entry :: rest =>
    if key < entry.1 then (key, value) :: entry :: rest
    else if entry.1 < key then entry :: put key value rest
    else (key, value) :: rest

theorem mem_put {key : String} {value : α} {entry : String × α} {entries : List (String × α)}
    (mem : entry ∈ put key value entries) : entry = (key, value) ∨ entry ∈ entries := by
  induction entries with
  | nil => simpa [put] using mem
  | cons first rest ih =>
    simp only [put] at mem
    split at mem
    · simpa using mem
    · split at mem
      · rcases List.mem_cons.mp mem with same | later
        · exact .inr (by simp [same])
        · rcases ih later with new | old
          · exact .inl new
          · exact .inr (List.mem_cons_of_mem first old)
      · rcases List.mem_cons.mp mem with same | later
        · exact .inl same
        · exact .inr (List.mem_cons_of_mem first later)

theorem key_eq_of_not_lt {a b : String} (h : ¬a < b) (k : ¬b < a) : a = b :=
  Std.Trichotomous.trichotomous (r := fun x y : String => x < y) a b h k

theorem put_ascending (key : String) (value : α) {entries : List (String × α)}
    (asc : entries.Pairwise (fun a b => a.1 < b.1)) :
    (put key value entries).Pairwise (fun a b => a.1 < b.1) := by
  induction entries with
  | nil => simp [put]
  | cons first rest ih =>
    have ⟨above, tail⟩ := List.pairwise_cons.mp asc
    simp only [put]
    split
    · rename_i before
      refine List.pairwise_cons.mpr ⟨?_, asc⟩
      intro entry mem
      rcases List.mem_cons.mp mem with same | later
      · simpa [same] using before
      · exact String.lt_trans before (above entry later)
    · split
      · rename_i after
        refine List.pairwise_cons.mpr ⟨?_, ih tail⟩
        intro entry mem
        rcases mem_put mem with new | old
        · simpa [new] using after
        · exact above entry old
      · rename_i notBefore notAfter
        have same := key_eq_of_not_lt notBefore notAfter
        refine List.pairwise_cons.mpr ⟨?_, tail⟩
        intro entry mem
        simpa [same] using above entry mem

def empty : Dictionary α := ⟨[], .nil⟩

instance : Inhabited (Dictionary α) := ⟨empty⟩

instance [DecidableEq α] : DecidableEq (Dictionary α) := fun a b =>
  decidable_of_iff (a.entries = b.entries) ⟨fun h => by cases a; cases b; simp_all, fun h => by rw [h]⟩

def insert (m : Dictionary α) (key : String) (value : α) : Dictionary α :=
  ⟨put key value m.entries, put_ascending key value m.ascending⟩

def ofList (entries : List (String × α)) : Dictionary α :=
  entries.foldl (fun m entry => m.insert entry.1 entry.2) empty

def get? (m : Dictionary α) (key : String) : Option α := m.entries.lookup key

def size (m : Dictionary α) : Nat := m.entries.length

def isEmpty (m : Dictionary α) : Bool := m.entries.isEmpty

end Dictionary

end ModuleTree
