import ModuleTree.Proofs.Path.Below
/- A base is taken away from a path and put back. What is left has the components of the path behind
   those of the base; joined onto the base it is the path again, and what was joined onto a base
   comes back when the base is taken away. -/
namespace ModuleTree.Path

variable {p q rest : Path} {names : List Bytes} {l : Layout}

/-- A path of names alone, without a root, a leading dot or a step up. -/
def IsNormal (p : Path) : Prop := ∀ c ∈ p.components, ∃ name, c = .name name

section Behind

theorem filterMap_dropComponents (count : Nat) (body : List Bytes) :
    (dropComponents count body).filterMap ofPiece? = (body.filterMap ofPiece?).drop count := by
  induction body generalizing count with
  | nil => cases count <;> simp [dropComponents]
  | cons piece body ih =>
    cases count with
    | zero => rfl
    | succ count =>
      cases named : ofPiece? piece with
      | none => simp [dropComponents, isSilent, named, ih]
      | some c => simp [dropComponents, isSilent, named, ih]

theorem filterMap_dropWhile_silent (body : List Bytes) :
    (body.dropWhile isSilent).filterMap ofPiece? = body.filterMap ofPiece? := by
  conv => rhs; rw [← List.takeWhile_append_dropWhile (p := isSilent) (l := body)]
  rw [List.filterMap_append, filterMap_silent (takeWhile_silent body), List.nil_append]

theorem trimRight_front (body : List Bytes) : trimRight body <+: body := by
  have inner : body.reverse.dropWhile isSilent <:+ body.reverse := List.dropWhile_suffix _
  rw [← List.reverse_prefix, List.reverse_reverse] at inner
  exact inner

theorem filterMap_trimRight (body : List Bytes) :
    (trimRight body).filterMap ofPiece? = body.filterMap ofPiece? := by
  rw [trimRight, List.filterMap_reverse, filterMap_dropWhile_silent, List.filterMap_reverse,
    List.reverse_reverse]

theorem dropComponents_suffix (count : Nat) (body : List Bytes) :
    dropComponents count body <:+ body := by
  induction body generalizing count with
  | nil => cases count <;> exact List.suffix_rfl
  | cons piece body ih =>
    cases count with
    | zero => exact List.suffix_rfl
    | succ count =>
      unfold dropComponents
      split <;> exact (ih _).trans (List.suffix_cons piece body)

theorem proper_dropWhile {body : List Bytes} (free : ∀ piece ∈ body, slash ∉ piece) :
    (⟨none, body.dropWhile isSilent⟩ : Layout).Proper where
  slashFree piece mem := free piece ((List.dropWhile_suffix isSilent).subset mem)
  fronted _ piece first := by
    have loud := List.head?_dropWhile_not isSilent body
    rw [Option.mem_def.mp first] at loud
    exact nonempty_of_loud (by simpa using loud)

theorem Layout.behind_proper (proper : l.Proper) (count : Nat) : (l.behind count).Proper := by
  obtain ⟨lead, body⟩ := l
  unfold behind
  split
  · exact proper_front proper (trimRight_front body)
  · have rest : ∀ piece ∈ dropComponents (count - lead.toList.length) body, slash ∉ piece :=
      fun piece mem => proper.slashFree piece ((dropComponents_suffix _ body).subset mem)
    exact proper_front (proper_dropWhile rest) (trimRight_front _)

theorem Layout.behind_components (l : Layout) (count : Nat) :
    (l.behind count).components = l.components.drop count := by
  obtain ⟨lead, body⟩ := l
  unfold behind
  split
  · rename_i none
    simp [components, none, filterMap_trimRight]
  · rename_i some
    have single : (lead.toList.map Lead.component).length ≤ count := by
      have one : lead.toList.length ≤ 1 := by cases lead <;> simp
      rw [List.length_map]
      omega
    simp only [components, Option.toList_none, List.map_nil, List.nil_append,
      filterMap_trimRight, filterMap_dropWhile_silent, filterMap_dropComponents]
    rw [List.drop_append, List.drop_eq_nil_of_le single, List.length_map, List.nil_append]

end Behind

section Append

theorem components_append (relative : q.isAbsolute = false)
    (bare : q.segmentNames.head? ≠ some [dot]) :
    (p.append q).components = p.components ++ q.components := by
  have alone : leading false q.segmentNames = [] := by simp [leading, bare]
  have front : leading p.isAbsolute (p.segmentNames ++ q.segmentNames) =
      leading p.isAbsolute p.segmentNames := by
    cases names : p.segmentNames with
    | cons name more => simp [leading]
    | nil =>
      cases absolute : p.isAbsolute with
      | true => rfl
      | false => exact alone
  rw [components_eq (p.append q), isAbsolute_append relative, segmentNames_append relative, front,
    components_eq p, components_eq q, relative, alone, List.filterMap_append, List.nil_append,
    List.append_assoc]

theorem bare_of_proper (proper : l.Proper) (plain : l.lead = none) :
    l.toPath.isAbsolute = false ∧ l.toPath.segmentNames.head? ≠ some [dot] := by
  rw [Layout.toPath_isAbsolute proper, Layout.toPath_segmentNames proper]
  obtain ⟨lead, body⟩ := l
  cases plain
  refine ⟨rfl, ?_⟩
  cases body with
  | nil => simp [Layout.segmentNames]
  | cons piece body =>
    obtain ⟨nonempty, notHere⟩ := proper.fronted rfl piece rfl
    simp [Layout.segmentNames, nonempty, notHere]

theorem bare_of_isNormal (normal : q.IsNormal) :
    q.isAbsolute = false ∧ q.segmentNames.head? ≠ some [dot] := by
  have none {c : Component} (front : c ∈ leading q.isAbsolute q.segmentNames) :
      ∃ name, c = .name name := normal c (components_eq q ▸ List.mem_append_left _ front)
  constructor
  · cases absolute : q.isAbsolute with
    | false => rfl
    | true => simpa using none (c := .root) (by simp [leading, absolute])
  · intro here
    cases absolute : q.isAbsolute with
    | false => simpa using none (c := .here) (by simp [leading, absolute, here])
    | true => simpa using none (c := .root) (by simp [leading, absolute])

theorem eq_empty_of_components (none : p.components = []) : p = empty := by
  cases named : p.isEmpty with
  | false => exact absurd none (components_ne_nil named)
  | true => exact eq_empty_of_isEmpty named

theorem append_of_empty (q : Path) : empty.append q = q := by
  unfold append
  split <;> rfl

end Append

section Relative

variable {root path : Path} {isFile : Bool}

theorem relativeToRoot_eq_ok : relativeToRoot root isFile path = .ok rest ↔
    (base root isFile).components <+: path.components ∧
      rest = (path.layout.behind (base root isFile).components.length).toPath := by
  unfold relativeToRoot stripPrefix?
  by_cases front : (base root isFile).components <+: path.components
  · rw [if_pos (List.isPrefixOf_iff_prefix.mpr front)]
    simp only [Except.ok.injEq, front, true_and]
    exact eq_comm
  · rw [if_neg (mt List.isPrefixOf_iff_prefix.mp front)]
    simp [front]

theorem components_of_relativeToRoot (related : relativeToRoot root isFile path = .ok rest) :
    path.components = (base root isFile).components ++ rest.components := by
  obtain ⟨⟨more, whole⟩, rfl⟩ := relativeToRoot_eq_ok.mp related
  rw [Layout.toPath_components (Layout.behind_proper (layout_proper path) _),
    Layout.behind_components]
  change _ = _ ++ path.components.drop _
  rw [← whole, List.drop_left]

theorem append_of_relativeToRoot (related : relativeToRoot root isFile path = .ok rest) :
    ((base root isFile).append rest).components = path.components := by
  have whole := components_of_relativeToRoot related
  by_cases none : (base root isFile).components = []
  · rw [eq_empty_of_components none, append_of_empty, whole, none, List.nil_append]
  · obtain ⟨_, left⟩ := relativeToRoot_eq_ok.mp related
    have plain : (path.layout.behind (base root isFile).components.length).lead = Option.none := by
      unfold Layout.behind
      rw [if_neg (by simpa using none)]
    obtain ⟨relative, bare⟩ := bare_of_proper (Layout.behind_proper (layout_proper path) _) plain
    rw [← left] at relative bare
    rw [components_append relative bare, whole]

theorem relativeToRoot_append (root : Path) (isFile : Bool) (normal : rest.IsNormal) :
    ∃ rest', relativeToRoot root isFile ((base root isFile).append rest) = .ok rest' ∧
      rest'.components = rest.components := by
  obtain ⟨relative, bare⟩ := bare_of_isNormal normal
  have whole := components_append (p := base root isFile) relative bare
  obtain ⟨rest', related⟩ : ∃ rest',
      relativeToRoot root isFile ((base root isFile).append rest) = .ok rest' :=
    ⟨_, relativeToRoot_eq_ok.mpr ⟨whole ▸ List.prefix_append _ _, rfl⟩⟩
  refine ⟨rest', related, ?_⟩
  have again := components_of_relativeToRoot related
  rw [whole] at again
  exact (List.append_cancel_left again).symm

theorem layout_join (valid : ∀ name ∈ names, IsName name) :
    (⟨join names⟩ : Path).layout = ⟨none, names⟩ := by
  refine layout_of_toPath (l := ⟨none, names⟩)
    ⟨fun name mem => (valid name mem).slashFree, fun _ name first => ?_⟩ (by simp)
  have here := valid name (List.mem_of_mem_head? first)
  exact ⟨here.nonempty, here.notHere⟩

theorem isNormal_join (valid : ∀ name ∈ names, IsName name) : (⟨join names⟩ : Path).IsNormal := by
  intro c mem
  rw [components_join valid] at mem
  obtain ⟨name, _, rfl⟩ := List.mem_map.mp mem
  exact ⟨name, rfl⟩

theorem behind_join (valid : ∀ name ∈ names, IsName name) :
    ((⟨join names⟩ : Path).layout.behind 0).toPath = ⟨join names⟩ := by
  have trimmed := trimRight_of_isName valid
  rw [dropWhile_of_isName valid] at trimmed
  rw [layout_join valid, Layout.behind, if_pos rfl, trimmed]
  rfl

theorem relativeToRoot_join (root : Path) (isFile : Bool) (valid : ∀ name ∈ names, IsName name) :
    relativeToRoot root isFile ((base root isFile).append ⟨join names⟩) = .ok ⟨join names⟩ := by
  by_cases some : names = []
  · subst some
    obtain ⟨rest', related, none⟩ := relativeToRoot_append root isFile (isNormal_join valid)
    rw [related, eq_empty_of_components none]
    rfl
  cases named : (base root isFile).isEmpty with
  | false =>
    have below := relativeToRoot_below named some valid
    rw [below_eq_append some valid] at below
    exact below
  | true =>
    have none := eq_empty_of_isEmpty named
    have silent : empty.components = [] := rfl
    rw [none, append_of_empty]
    refine relativeToRoot_eq_ok.mpr ⟨?_, ?_⟩
    · rw [none, silent]
      exact List.nil_prefix
    · rw [none, silent]
      exact (behind_join valid).symm

/-- Making a path relative undoes joining it onto the base, and joining it onto the base undoes
making it relative, however all of them are written. -/
theorem relativeToRoot_inverts_append (root : Path) (isFile : Bool) (path : Path) :
    ((∃ rest, relativeToRoot root isFile path = .ok rest) ↔
      (base root isFile).components <+: path.components) ∧
    (∀ rest, relativeToRoot root isFile path = .ok rest →
      path.components = (base root isFile).components ++ rest.components ∧
        ((base root isFile).append rest).components = path.components) ∧
    (∀ rest : Path, rest.IsNormal →
      ∃ rest', relativeToRoot root isFile ((base root isFile).append rest) = .ok rest' ∧
        rest'.components = rest.components) ∧
    ∀ names : List Bytes, (∀ name ∈ names, IsName name) →
      relativeToRoot root isFile ((base root isFile).append ⟨join names⟩) = .ok ⟨join names⟩ := by
  refine ⟨?_, fun rest related => ?_, fun rest => relativeToRoot_append root isFile,
    fun names => relativeToRoot_join root isFile⟩
  · constructor
    · rintro ⟨rest, related⟩
      exact (relativeToRoot_eq_ok.mp related).1
    · intro front
      exact ⟨_, relativeToRoot_eq_ok.mpr ⟨front, rfl⟩⟩
  · exact ⟨components_of_relativeToRoot related, append_of_relativeToRoot related⟩

example : relativeToRoot (.ofString "lib//x/.") false (.ofString "lib/./x//y//z/") =
    .ok (.ofString "y//z") := by decide +kernel

end Relative

end ModuleTree.Path
