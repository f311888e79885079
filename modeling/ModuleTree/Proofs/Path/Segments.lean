import Mathlib.Data.List.Basic
import ModuleTree.Directory
import ModuleTree.FileSystem.Resolve
/- The names along a path. What a path names is told by whether it is absolute and by its
   names in order; putting paths together puts the names together, and a parent has fewer. -/
namespace ModuleTree.Path

/-- What an entry of a directory can be called. -/
structure IsName (name : Bytes) : Prop where
  nonempty : name ≠ []
  slashFree : slash ∉ name
  notHere : name ≠ [dot]
  notUp : name ≠ [dot, dot]

section Split

theorem split_ne_nil (bytes : Bytes) : split bytes ≠ [] := by
  cases bytes with
  | nil => simp [split]
  | cons b bytes =>
    unfold split
    split
    · simp
    · split <;> simp

theorem split_cons {b : UInt8} (inner : b ≠ slash) {bytes piece : Bytes} {pieces : List Bytes}
    (rest : split bytes = piece :: pieces) : split (b :: bytes) = (b :: piece) :: pieces := by
  rw [split, if_neg inner, rest]

theorem slashFree_of_mem_split {bytes piece : Bytes} (mem : piece ∈ split bytes) :
    slash ∉ piece := by
  induction bytes generalizing piece with
  | nil =>
    rw [split, List.mem_singleton] at mem
    simp [mem]
  | cons b bytes ih =>
    by_cases end_ : b = slash
    · rw [split, if_pos end_] at mem
      rcases List.mem_cons.mp mem with first | later
      · simp [first]
      · exact ih later
    · obtain ⟨first, rest, pieces⟩ := List.exists_cons_of_ne_nil (split_ne_nil bytes)
      rw [split_cons end_ pieces] at mem
      rw [pieces] at ih
      rcases List.mem_cons.mp mem with here | later
      · rw [here, List.mem_cons]
        rintro (same | inside)
        · exact end_ same.symm
        · exact ih List.mem_cons_self inside
      · exact ih (List.mem_cons_of_mem first later)

theorem split_append_slash (a b : Bytes) : split (a ++ slash :: b) = split a ++ split b := by
  induction a with
  | nil => simp [split]
  | cons c a ih =>
    by_cases end_ : c = slash
    · simp [split, end_, ih]
    · obtain ⟨piece, pieces, rest⟩ := List.exists_cons_of_ne_nil (split_ne_nil a)
      rw [split_cons end_ rest]
      rw [rest] at ih
      exact split_cons end_ ih

theorem split_of_slashFree {piece : Bytes} (free : slash ∉ piece) : split piece = [piece] := by
  induction piece with
  | nil => rfl
  | cons b piece ih =>
    rw [List.mem_cons, not_or] at free
    exact split_cons (Ne.symm free.1) (ih free.2)

theorem split_join {pieces : List Bytes} (some : pieces ≠ [])
    (free : ∀ piece ∈ pieces, slash ∉ piece) : split (join pieces) = pieces := by
  induction pieces with
  | nil => contradiction
  | cons piece rest ih =>
    have here := split_of_slashFree (free piece List.mem_cons_self)
    cases rest with
    | nil => exact here
    | cons next rest =>
      have later := ih (by simp) fun p mem => free p (List.mem_cons_of_mem piece mem)
      rw [join, split_append_slash, here, later]
      · rfl
      · simp

end Split

section Append

variable {p q : Path}

theorem eq_empty_of_isEmpty (none : p.isEmpty = true) : p = empty := by
  obtain ⟨bytes⟩ := p
  obtain rfl : bytes = [] := by simpa [isEmpty] using none
  rfl

theorem segmentNames_slash (a b : Bytes) : (⟨a ++ slash :: b⟩ : Path).segmentNames =
    (⟨a⟩ : Path).segmentNames ++ (⟨b⟩ : Path).segmentNames := by
  simp [segmentNames, split_append_slash]

theorem segmentNames_empty : (⟨[]⟩ : Path).segmentNames = [] := rfl

theorem mem_segmentNames {name : Bytes} (mem : name ∈ p.segmentNames) :
    name ≠ [] ∧ slash ∉ name := by
  obtain ⟨piece, named⟩ := List.mem_filter.mp mem
  exact ⟨by simpa using named, slashFree_of_mem_split piece⟩

theorem segmentNames_append (relative : q.isAbsolute = false) :
    (p.append q).segmentNames = p.segmentNames ++ q.segmentNames := by
  obtain ⟨bytes⟩ := p
  unfold append
  rw [if_neg (by simp [relative])]
  rcases List.eq_nil_or_concat bytes with empty | ⟨before, b, whole⟩
  · simp [empty, segmentNames_empty]
  · rw [List.concat_eq_append] at whole
    subst whole
    simp only [List.getLast?_concat]
    by_cases slashed : b = slash
    · subst slashed
      have trailing := segmentNames_slash before []
      rw [segmentNames_empty, List.append_nil] at trailing
      rw [if_pos rfl, List.append_assoc, List.singleton_append, segmentNames_slash, trailing]
    · rw [if_neg slashed, segmentNames_slash]

theorem isAbsolute_append (relative : q.isAbsolute = false) :
    (p.append q).isAbsolute = p.isAbsolute := by
  obtain ⟨bytes⟩ := p
  unfold append
  rw [if_neg (by simp [relative])]
  cases bytes with
  | nil => exact relative
  | cons b bytes =>
    split
    · simp_all
    · split <;> rfl

theorem isAbsolute_join {names : List Bytes} (valid : ∀ name ∈ names, IsName name) :
    (⟨join names⟩ : Path).isAbsolute = false := by
  cases names with
  | nil => rfl
  | cons name rest =>
    have here := valid name List.mem_cons_self
    obtain ⟨b, bytes, first⟩ := List.exists_cons_of_ne_nil here.nonempty
    have inner : b ≠ slash := by
      intro same
      exact here.slashFree (by simp [first, same])
    cases rest <;> simp [join, isAbsolute, first, inner]

theorem segmentNames_join {names : List Bytes} (valid : ∀ name ∈ names, IsName name) :
    (⟨join names⟩ : Path).segmentNames = names := by
  by_cases some : names = []
  · subst some
    rfl
  · unfold segmentNames
    rw [split_join some fun name mem => (valid name mem).slashFree]
    apply List.filter_eq_self.mpr
    intro name mem
    simpa using (valid name mem).nonempty

theorem relative_of_isName {name : Bytes} (valid : IsName name) :
    (⟨name⟩ : Path).isAbsolute = false ∧ (⟨name⟩ : Path).segmentNames = [name] := by
  have all : ∀ n ∈ [name], IsName n := by simpa using valid
  exact ⟨isAbsolute_join all, segmentNames_join all⟩

theorem segmentNames_child {name : Bytes} (valid : IsName name) :
    (p.child name).segmentNames = p.segmentNames ++ [name] := by
  obtain ⟨relative, named⟩ := relative_of_isName valid
  rw [child, segmentNames_append relative, named]

theorem isAbsolute_child {name : Bytes} (valid : IsName name) :
    (p.child name).isAbsolute = p.isAbsolute :=
  isAbsolute_append (relative_of_isName valid).1

end Append

/-- What the names of a path mean: whether it starts at the root, and which names follow. -/
def leading (absolute : Bool) (names : List Bytes) : List Component :=
  if absolute then [.root] else if names.head? = some [dot] then [.here] else []

theorem ofPiece?_of_isName {name : Bytes} (valid : IsName name) :
    ofPiece? name = some (.name name) := by
  simp [ofPiece?, valid.nonempty, valid.notHere, valid.notUp]

theorem filterMap_segmentNames (pieces : List Bytes) :
    (pieces.filter (· ≠ [])).filterMap ofPiece? = pieces.filterMap ofPiece? := by
  rw [List.filterMap_filter]
  congr 1
  funext piece
  by_cases empty : piece = [] <;> simp [empty, ofPiece?]

theorem components_eq (p : Path) :
    p.components = leading p.isAbsolute p.segmentNames ++ p.segmentNames.filterMap ofPiece? := by
  obtain ⟨bytes⟩ := p
  rw [segmentNames, filterMap_segmentNames]
  cases bytes with
  | nil => simp [components, layout, Layout.components, leading, isAbsolute, split, ofPiece?]
  | cons b bytes =>
    by_cases root : b = slash
    · subst root
      simp [components, layout, Layout.components, leading, isAbsolute, split, ofPiece?,
        Lead.component]
    · obtain ⟨piece, pieces, rest⟩ := List.exists_cons_of_ne_nil (split_ne_nil bytes)
      have whole := split_cons root rest
      by_cases here : b :: piece = [dot]
      · simp [components, layout, Layout.components, leading, isAbsolute, root, whole, here,
          ofPiece?, Lead.component]
      · simp [components, layout, Layout.components, leading, isAbsolute, root, whole, here]

section Layouts

namespace Layout

/-- A layout that says by itself what its path says: its pieces are pieces, and nothing but a
name stands in front where no lead does. -/
structure Proper (l : Layout) : Prop where
  slashFree : ∀ piece ∈ l.body, slash ∉ piece
  fronted : l.lead = none → ∀ piece ∈ l.body.head?, piece ≠ [] ∧ piece ≠ [dot]

def segmentNames (l : Layout) : List Bytes :=
  (if l.lead = some .here then [[dot]] else []) ++ l.body.filter (· ≠ [])

variable {l : Layout}

theorem segmentNames_toPath (free : ∀ piece ∈ l.body, slash ∉ piece) :
    l.toPath.segmentNames = l.segmentNames := by
  obtain ⟨lead, body⟩ := l
  cases lead with
  | none =>
    by_cases empty : body = []
    · subst empty
      rfl
    · simp [toPath, Path.segmentNames, segmentNames, split_join empty free]
  | some lead =>
    cases lead with
    | root =>
      by_cases empty : body = []
      · subst empty
        rfl
      · simp [toPath, Path.segmentNames, segmentNames, split, split_join empty free]
    | here =>
      have all : ∀ piece ∈ [dot] :: body, slash ∉ piece := by
        intro piece mem
        rcases List.mem_cons.mp mem with here | later
        · subst here
          decide
        · exact free piece later
      simp [toPath, Path.segmentNames, segmentNames, split_join (List.cons_ne_nil _ _) all]

theorem toPath_segmentNames (proper : l.Proper) : l.toPath.segmentNames = l.segmentNames :=
  segmentNames_toPath proper.slashFree

theorem toPath_isAbsolute (proper : l.Proper) :
    l.toPath.isAbsolute = decide (l.lead = some .root) := by
  obtain ⟨lead, body⟩ := l
  cases lead with
  | none =>
    cases body with
    | nil => rfl
    | cons piece rest =>
      obtain ⟨nonempty, _⟩ := proper.fronted rfl piece rfl
      have free := proper.slashFree piece List.mem_cons_self
      obtain ⟨b, bytes, first⟩ := List.exists_cons_of_ne_nil nonempty
      have inner : b ≠ slash := by
        intro same
        exact free (by simp [first, same])
      cases rest <;> simp [toPath, join, isAbsolute, first, inner]
  | some lead =>
    cases lead with
    | root => simp [toPath, isAbsolute]
    | here => cases body <;> simp [toPath, join, isAbsolute, dot, slash]

theorem toPath_components (proper : l.Proper) : l.toPath.components = l.components := by
  rw [components_eq, toPath_isAbsolute proper, toPath_segmentNames proper]
  obtain ⟨lead, body⟩ := l
  simp only [segmentNames, List.filterMap_append, filterMap_segmentNames, components]
  cases lead with
  | none =>
    have front : (body.filter (· ≠ [])).head? ≠ some [dot] := by
      cases body with
      | nil => simp
      | cons piece rest =>
        obtain ⟨nonempty, notHere⟩ := proper.fronted rfl piece rfl
        simp [nonempty, notHere]
    simpa [leading] using front
  | some lead => cases lead <;> simp [leading, ofPiece?, Lead.component]

end Layout

theorem layout_proper (p : Path) : p.layout.Proper := by
  obtain ⟨bytes⟩ := p
  cases bytes with
  | nil => exact ⟨by simp [layout], by simp [layout]⟩
  | cons b bytes =>
    by_cases root : b = slash
    · simp only [layout, if_pos root]
      exact ⟨fun piece mem => slashFree_of_mem_split mem, by simp⟩
    · obtain ⟨piece, pieces, rest⟩ := List.exists_cons_of_ne_nil (split_ne_nil bytes)
      have whole := split_cons root rest
      have free : ∀ p ∈ (b :: piece) :: pieces, slash ∉ p := by
        intro p mem
        exact slashFree_of_mem_split (whole ▸ mem)
      simp only [layout, if_neg root, whole]
      split
      · exact ⟨fun p mem => free p (List.mem_cons_of_mem _ mem), by simp⟩
      · rename_i notHere
        refine ⟨free, fun _ p mem => ?_⟩
        cases mem
        exact ⟨List.cons_ne_nil b piece, notHere⟩

theorem layout_toPath (p : Path) :
    p.layout.segmentNames = p.segmentNames ∧
      decide (p.layout.lead = some .root) = p.isAbsolute := by
  obtain ⟨bytes⟩ := p
  cases bytes with
  | nil => exact ⟨rfl, rfl⟩
  | cons b bytes =>
    by_cases root : b = slash
    · subst root
      simp [layout, Layout.segmentNames, segmentNames, split, isAbsolute]
    · obtain ⟨piece, pieces, rest⟩ := List.exists_cons_of_ne_nil (split_ne_nil bytes)
      have whole := split_cons root rest
      by_cases here : b :: piece = [dot]
      · simp [layout, Layout.segmentNames, segmentNames, root, whole, here, isAbsolute]
      · simp [layout, Layout.segmentNames, segmentNames, root, whole, here, isAbsolute]

end Layouts

end ModuleTree.Path
