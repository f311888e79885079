import ModuleTree.Proofs.Path.ModuleName
/- Paths in their normal form, which is a text: the names along the path between slashes. Read as a
   path, such a text has these names for its components and nothing else, although bytes that are no
   text were replaced in them, so it is its own normal form; and the normal form of two paths put
   together is their normal forms put together. -/
namespace ModuleTree.Path
open Text

def segmentsOf (text : String) : List (List Char) :=
  if text = "" then [] else text.toList.splitOn '/'

/-- A text of segments of which none is empty, a dot or two dots. -/
structure Normalized (text : String) : Prop where
  segments : ∀ segment ∈ segmentsOf text, segment ≠ [] ∧ segment ≠ ['.'] ∧ segment ≠ ['.', '.']
  front : text.toList.head? ≠ some '/'
  back : text.toList.getLast? ≠ some '/'

/-- Two texts with a slash in between, or just the other one if one is empty. -/
def joined (a b : String) : String := if a = "" then b else if b = "" then a else a ++ "/" ++ b

variable {p q : Path} {name : Bytes} {names names' : List Bytes} {text : String}

section Segments

theorem segmentsOf_of_ne (some : text ≠ "") : segmentsOf text = text.toList.splitOn '/' :=
  if_neg some

theorem normalized_of_segments (segments : ∀ segment ∈ segmentsOf text,
    segment ≠ [] ∧ segment ≠ ['.'] ∧ segment ≠ ['.', '.']) : Normalized text := by
  have filled (some : text ≠ "") : [] ∉ text.toList.splitOn '/' := by
    intro mem
    rw [← segmentsOf_of_ne some] at mem
    exact (segments [] mem).1 rfl
  refine ⟨segments, fun slashed => ?_, fun slashed => ?_⟩
  · obtain ⟨rest, whole⟩ := List.head?_eq_some_iff.mp slashed
    refine filled (by rintro rfl; cases whole) ?_
    simp [whole, List.splitOn_cons_eq_if_modifyHead]
  · obtain ⟨front, whole⟩ := List.getLast?_eq_some_iff.mp slashed
    refine filled (by rintro rfl; simp at whole) ?_
    simp [whole, List.splitOn_append_cons_self]

theorem isName_of_segment (normalized : Normalized text) {segment : List Char}
    (mem : segment ∈ segmentsOf text) : IsName (encode (.ofList segment)) := by
  obtain ⟨filled, notHere, notUp⟩ := normalized.segments segment mem
  have other (letters : List Char) (ne : segment ≠ letters) :
      encode (.ofList segment) ≠ encode (.ofList letters) := by
    intro same
    exact ne (by simpa using congrArg String.toList (encode_injective same))
  have some : text ≠ "" := by
    rintro rfl
    cases mem
  have written : encode (.ofList segment) ∈ split (encode (.ofList text.toList)) := by
    rw [split_encode, ← segmentsOf_of_ne some]
    exact List.mem_map_of_mem mem
  exact ⟨other [] filled, slashFree_of_mem_split written, other ['.'] notHere,
    other ['.', '.'] notUp⟩

theorem ofString_eq_join (text : String) :
    ofString text = ⟨join ((segmentsOf text).map fun segment => encode (.ofList segment))⟩ := by
  by_cases none : text = ""
  · subst none
    rfl
  · have whole := join_split (encode (.ofList text.toList))
    rw [split_encode, ← segmentsOf_of_ne none, String.ofList_toList] at whole
    rw [whole]
    rfl

theorem components_of_normalized (normalized : Normalized text) : (ofString text).components =
    (segmentsOf text).map fun segment => .name (encode (.ofList segment)) := by
  rw [ofString_eq_join, components_join, List.map_map]
  · rfl
  · exact List.forall_mem_map.mpr fun segment mem => isName_of_segment normalized mem

theorem normalize_of_normalized (normalized : Normalized text) :
    (ofString text).normalize = text := by
  have names : (ofString text).names =
      (segmentsOf text).map fun segment => encode (.ofList segment) := by
    rw [ofString_eq_join, names_join]
    exact List.forall_mem_map.mpr fun segment mem => isName_of_segment normalized mem
  have shown : ((segmentsOf text).map fun segment => encode (.ofList segment)).map lossy =
      (segmentsOf text).map .ofList := by
    rw [List.map_map]
    exact List.map_congr_left fun segment _ => lossy_encode _
  rw [normalize, moduleName, names, shown]
  by_cases none : text = ""
  · subst none
    rfl
  · rw [segmentsOf_of_ne none, ← String.toList_inj, String.toList_intercalate, List.map_map]
    have same : String.toList ∘ String.ofList = id := funext fun letters => String.toList_ofList
    rw [same, List.map_id]
    exact List.intercalate_splitOn '/'

end Segments

section Names

theorem moduleName_eq_empty (valid : ∀ name ∈ names, IsName name) :
    moduleName names = "" ↔ names = [] := by
  constructor
  · intro empty
    by_contra some
    have parts := splitOn_moduleName valid some
    rw [empty] at parts
    obtain ⟨name, rfl, nothing⟩ := List.map_eq_singleton_iff.mp parts.symm
    exact lossy_ne_empty (valid name (by simp)).nonempty nothing
  · rintro rfl
    rfl

theorem segmentsOf_moduleName (valid : ∀ name ∈ names, IsName name) :
    segmentsOf (moduleName names) = names.map fun name => (lossy name).toList := by
  by_cases none : names = []
  · subst none
    rfl
  · rw [segmentsOf_of_ne (mt (moduleName_eq_empty valid).mp none), splitOn_moduleName valid none]

theorem normalized_moduleName (valid : ∀ name ∈ names, IsName name) :
    Normalized (moduleName names) := by
  refine normalized_of_segments ?_
  rw [segmentsOf_moduleName valid, List.forall_mem_map]
  intro name mem
  have here := valid name mem
  refine ⟨lossy_ne_empty here.nonempty, fun read => here.notHere ?_, fun read => here.notUp ?_⟩
  · exact eq_of_lossy (by simp) read
  · exact eq_of_lossy (by simp) read

theorem moduleName_append (valid : ∀ name ∈ names, IsName name)
    (valid' : ∀ name ∈ names', IsName name) :
    moduleName (names ++ names') = joined (moduleName names) (moduleName names') := by
  by_cases none : names = []
  · subst none
    rfl
  by_cases none' : names' = []
  · subst none'
    rw [List.append_nil, joined]
    split <;> simp_all [moduleName]
  · have first := mt (moduleName_eq_empty valid).mp none
    have second := mt (moduleName_eq_empty valid').mp none'
    rw [joined, if_neg first, if_neg second, moduleName, List.map_append,
      String.intercalate_append_of_ne_nil (by simpa using none) (by simpa using none')]
    rfl

end Names

theorem isName_of_mem_names : ∀ name ∈ p.names, IsName name := fun _ mem => (mem_names mem).2

theorem names_append (relative : q.isAbsolute = false) :
    (p.append q).names = p.names ++ q.names := by
  rw [names_eq, names_eq, names_eq, segmentNames_append relative, List.filterMap_append]

theorem normalize_append (p q : Path) : (p.append q).normalize =
    if q.isAbsolute then q.normalize else joined p.normalize q.normalize := by
  cases absolute : q.isAbsolute with
  | true => simp [append, absolute]
  | false =>
    rw [if_neg (by simp), normalize, names_append absolute,
      moduleName_append isName_of_mem_names isName_of_mem_names]
    rfl

/-- The normal form of a path has no segment that is empty, a dot or two dots; it is its own normal
form, its components are the names of the path, read as texts; and where paths are put together,
so are their normal forms. -/
theorem normal_form_lasting_and_joined (p : Path) :
    Normalized p.normalize ∧ (ofString p.normalize).normalize = p.normalize ∧
      (ofString p.normalize).components = p.names.map (fun name => .name (encode (lossy name))) ∧
      ∀ q : Path, (p.append q).normalize =
        if q.isAbsolute then q.normalize else joined p.normalize q.normalize := by
  have normalized : Normalized p.normalize := normalized_moduleName isName_of_mem_names
  refine ⟨normalized, normalize_of_normalized normalized, ?_, normalize_append p⟩
  rw [components_of_normalized normalized, normalize, segmentsOf_moduleName isName_of_mem_names,
    List.map_map]
  simp

example : (⟨encode "/a//./" ++ [0xFF] ++ encode "/../.b/"⟩ : Path).normalize = "a/\uFFFD/.b" := by
  decide +kernel

end ModuleTree.Path
