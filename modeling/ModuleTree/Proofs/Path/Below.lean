import Mathlib.Data.List.Induction
import ModuleTree.Path.Relative
import ModuleTree.Proofs.Path.Ancestors
/- What lies below a root, and what it is relative to. Names joined onto a root come back when
   the root is taken away, whatever way the root is written in. -/
namespace ModuleTree.Path

def below (p : Path) (names : List Bytes) : Path := names.foldl child p

variable {p : Path} {names : List Bytes} {name : Bytes}

theorem below_concat (p : Path) (names : List Bytes) (name : Bytes) :
    p.below (names ++ [name]) = (p.below names).child name := by
  simp [below]

theorem below_append (p : Path) (front rest : List Bytes) :
    p.below (front ++ rest) = (p.below front).below rest :=
  List.foldl_append

theorem segmentNames_below (valid : ∀ n ∈ names, IsName n) :
    (p.below names).segmentNames = p.segmentNames ++ names := by
  induction names using List.reverseRecOn with
  | nil => exact (List.append_nil _).symm
  | append_singleton names name ih =>
    have early : ∀ n ∈ names, IsName n := fun n mem => valid n (List.mem_append_left _ mem)
    rw [below_concat, segmentNames_child (valid name (by simp)), ih early, List.append_assoc]

theorem isAbsolute_below (valid : ∀ n ∈ names, IsName n) :
    (p.below names).isAbsolute = p.isAbsolute := by
  induction names using List.reverseRecOn with
  | nil => rfl
  | append_singleton names name ih =>
    have early : ∀ n ∈ names, IsName n := fun n mem => valid n (List.mem_append_left _ mem)
    rw [below_concat, isAbsolute_child (valid name (by simp)), ih early]

theorem leading_append (absolute : Bool) (front : List Bytes)
    (valid : ∀ name ∈ names, IsName name) :
    leading absolute (front ++ names) = leading absolute front := by
  cases front with
  | cons first rest => simp [leading]
  | nil =>
    cases names with
    | nil => rfl
    | cons name rest =>
      have here := (valid name List.mem_cons_self).notHere
      simp [leading, here]

theorem filterMap_names (valid : ∀ n ∈ names, IsName n) :
    names.filterMap ofPiece? = names.map .name := by
  rw [← List.filterMap_eq_map]
  exact List.filterMap_congr fun n mem => ofPiece?_of_isName (valid n mem)

theorem components_below {destination : Path} (absolute : p.isAbsolute = destination.isAbsolute)
    (valid : ∀ name ∈ names, IsName name)
    (whole : p.segmentNames = destination.segmentNames ++ names) :
    p.components = destination.components ++ names.map .name := by
  rw [components_eq p, components_eq destination, absolute, whole, leading_append _ _ valid,
    List.filterMap_append, filterMap_names valid, List.append_assoc]

theorem components_append_join (valid : ∀ name ∈ names, IsName name) :
    (p.append ⟨join names⟩).components = p.components ++ names.map .name := by
  have bare := isAbsolute_join valid
  refine components_below (isAbsolute_append bare) valid ?_
  rw [segmentNames_append bare, segmentNames_join valid]

theorem names_of_components {names' : List Bytes}
    (same : names.map Component.name = names'.map .name) : names = names' :=
  List.map_injective_iff.mpr (fun a b h => by cases h; rfl) same

section Layouts

def Layout.ofPieces : List Bytes → Layout
  | [] => ⟨none, []⟩
  | piece :: pieces =>
    if piece = [] then ⟨some .root, pieces⟩
    else if piece = [dot] then ⟨some .here, pieces⟩
    else ⟨none, piece :: pieces⟩

theorem layout_eq_ofPieces (some : p.isEmpty = false) : p.layout = .ofPieces (split p.bytes) := by
  obtain ⟨bytes⟩ := p
  cases bytes with
  | nil => cases some
  | cons b bytes =>
    by_cases root : b = slash
    · simp [layout, root, split, Layout.ofPieces]
    · obtain ⟨piece, pieces, rest⟩ := List.exists_cons_of_ne_nil (split_ne_nil bytes)
      simp [layout, root, split_cons root rest, Layout.ofPieces]

theorem Layout.ofPieces_concat {pieces : List Bytes} (some : pieces ≠ []) (piece : Bytes) :
    ofPieces (pieces ++ [piece]) = ⟨(ofPieces pieces).lead, (ofPieces pieces).body ++ [piece]⟩ := by
  cases pieces with
  | nil => contradiction
  | cons first rest =>
    simp only [List.cons_append, ofPieces]
    split
    · rfl
    · split <;> rfl

theorem split_child (some : p.isEmpty = false) (valid : IsName name) :
    ∃ pieces, pieces ≠ [] ∧ split (p.child name).bytes = pieces ++ [name] ∧
      (split p.bytes = pieces ∨ split p.bytes = pieces ++ [[]]) := by
  obtain ⟨bytes⟩ := p
  have named := split_of_slashFree valid.slashFree
  rcases List.eq_nil_or_concat bytes with empty | ⟨before, b, whole⟩
  · simp [empty, isEmpty] at some
  · rw [List.concat_eq_append] at whole
    subst whole
    unfold child append
    rw [if_neg (by simp [(relative_of_isName valid).1])]
    simp only [List.getLast?_concat]
    by_cases slashed : b = slash
    · subst slashed
      refine ⟨split before, split_ne_nil before, ?_, .inr (split_append_slash before [])⟩
      rw [if_pos rfl, List.append_assoc, List.singleton_append, split_append_slash, named]
    · refine ⟨split (before ++ [b]), split_ne_nil _, ?_, .inl rfl⟩
      rw [if_neg slashed, split_append_slash, named]

theorem child_nonempty (valid : IsName name) : (p.child name).isEmpty = false := by
  cases named : (p.child name).isEmpty with
  | false => rfl
  | true =>
    have none : (p.child name).bytes = [] := by simpa [isEmpty] using named
    have names := segmentNames_child (p := p) valid
    rw [segmentNames, none] at names
    simp [split] at names

theorem layout_below (some : p.isEmpty = false) (further : names ≠ [])
    (valid : ∀ n ∈ names, IsName n) :
    ∃ body, (p.below names).layout = ⟨p.layout.lead, body ++ names⟩ ∧
      (p.layout.body = body ∨ p.layout.body = body ++ [[]]) := by
  induction names using List.reverseRecOn with
  | nil => contradiction
  | append_singleton names name ih =>
    have here := valid name (by simp)
    rw [below_concat, layout_eq_ofPieces (child_nonempty here)]
    by_cases first : names = []
    · subst first
      obtain ⟨pieces, ne, whole, same⟩ := split_child some here
      change split (child (below p []) name).bytes = _ at whole
      rw [whole, Layout.ofPieces_concat ne, layout_eq_ofPieces some]
      rcases same with same | same
      · exact ⟨_, by rw [same]; rfl, .inl (by rw [same])⟩
      · rw [same, Layout.ofPieces_concat ne]
        exact ⟨_, rfl, .inr rfl⟩
    · have early : ∀ n ∈ names, IsName n := fun n mem => valid n (List.mem_append_left _ mem)
      obtain ⟨body, layout, same⟩ := ih first early
      obtain ⟨before, last, whole⟩ := List.eq_nil_or_concat names |>.resolve_left first
      rw [List.concat_eq_append] at whole
      have nonempty : (p.below names).isEmpty = false := by
        rw [whole, below_concat]
        exact child_nonempty (early last (by simp [whole]))
      obtain ⟨pieces, ne, split_, same_⟩ := split_child nonempty here
      rw [layout_eq_ofPieces nonempty] at layout
      rw [split_, Layout.ofPieces_concat ne]
      rcases same_ with same_ | same_
      · rw [← same_, layout]
        exact ⟨body, by simp, same⟩
      · -- The last name would be empty.
        rw [same_, Layout.ofPieces_concat ne, whole, ← List.append_assoc] at layout
        have none := (List.append_inj' (Layout.mk.inj layout).2 rfl).2
        have nonempty := (early last (by simp [whole])).nonempty
        rw [List.singleton_inj] at none
        exact absurd none.symm nonempty

end Layouts

section Behind

theorem isSilent_of_isName (valid : IsName name) : isSilent name = false := by
  simp [isSilent, ofPiece?_of_isName valid]

theorem dropComponents_front (front rest : List Bytes) :
    (dropComponents (front.filterMap ofPiece?).length (front ++ rest)).dropWhile isSilent =
      rest.dropWhile isSilent := by
  induction front with
  | nil => simp [dropComponents]
  | cons piece front ih =>
    cases named : ofPiece? piece with
    | none =>
      have silent : isSilent piece := by simp [isSilent, named]
      rw [List.filterMap_cons_none named]
      cases count : (front.filterMap ofPiece?).length with
      | zero =>
        rw [count] at ih
        simp only [dropComponents, List.cons_append, List.dropWhile_cons, silent] at ih ⊢
        exact ih
      | succ n =>
        rw [count] at ih
        simp only [List.cons_append, dropComponents, silent, if_true]
        exact ih
    | some c =>
      have loud : isSilent piece = false := by simp [isSilent, named]
      rw [List.filterMap_cons_some named]
      simpa [dropComponents, loud] using ih

theorem Layout.behind_front {lead : Option Lead} {front : List Bytes} (rest : List Bytes)
    (some : (⟨lead, front⟩ : Layout).components ≠ []) :
    (⟨lead, front ++ rest⟩ : Layout).behind (⟨lead, front⟩ : Layout).components.length =
      ⟨none, trimRight (rest.dropWhile isSilent)⟩ := by
  have count : (⟨lead, front⟩ : Layout).components.length - lead.toList.length =
      (front.filterMap ofPiece?).length := by
    simp [components]
  unfold behind
  rw [if_neg (by simpa using some), count]
  simp only [dropComponents_front]

theorem dropWhile_of_isName (valid : ∀ n ∈ names, IsName n) :
    names.dropWhile isSilent = names := by
  cases names with
  | nil => rfl
  | cons n rest => simp [isSilent_of_isName (valid n List.mem_cons_self)]

theorem trimRight_of_isName (valid : ∀ n ∈ names, IsName n) :
    trimRight (names.dropWhile isSilent) = names := by
  have loud : ∀ n ∈ names, isSilent n = false := fun n mem => isSilent_of_isName (valid n mem)
  have front := dropWhile_of_isName valid
  have back : names.reverse.dropWhile isSilent = names.reverse := by
    cases whole : names.reverse with
    | nil => rfl
    | cons n rest =>
      have mem : n ∈ names := by
        rw [← List.mem_reverse, whole]
        exact List.mem_cons_self
      simp [loud n mem]
  rw [front, trimRight, back, List.reverse_reverse]

theorem components_ne_nil (some : p.isEmpty = false) : p.components ≠ [] := by
  intro none
  have proper := layout_proper p
  have empty : p.layout.lead = Option.none ∧ p.layout.body.filterMap ofPiece? = [] := by
    simpa [components, Layout.components] using none
  cases body : p.layout.body with
  | nil =>
    have same := layout_eq_ofPieces some
    obtain ⟨piece, pieces, whole⟩ := List.exists_cons_of_ne_nil (split_ne_nil p.bytes)
    rw [whole] at same
    by_cases root : piece = []
    · simp [same, Layout.ofPieces, root] at empty
    · by_cases here : piece = [dot]
      · simp [same, Layout.ofPieces, here] at empty
      · simp [same, Layout.ofPieces, root, here] at body
  | cons piece rest =>
    obtain ⟨nonempty, notHere⟩ := proper.fronted empty.1 piece (by simp [body])
    have silent := empty.2
    rw [body] at silent
    by_cases up : piece = [dot, dot] <;> simp [ofPiece?, nonempty, notHere, up] at silent

theorem stripPrefix?_of_components (q base : Path) {rest : List Component}
    (whole : q.components = base.components ++ rest) :
    q.stripPrefix? base = some (q.layout.behind base.components.length).toPath := by
  unfold stripPrefix?
  rw [if_pos (by simp [whole])]

/-- What is found below a directory is relative to it by the names that lead there. -/
theorem relativeToRoot_below (some : p.isEmpty = false) (further : names ≠ [])
    (valid : ∀ n ∈ names, IsName n) :
    relativeToRoot p false (p.below names) = .ok ⟨join names⟩ := by
  obtain ⟨body, layout, same⟩ := layout_below some further valid
  have front : p.components = (⟨p.layout.lead, body⟩ : Layout).components := by
    rcases same with same | same <;>
      simp [components, Layout.components, same, ofPiece?]
  have rest := components_below (isAbsolute_below valid) valid (segmentNames_below (p := p) valid)
  have behind := Layout.behind_front names (front ▸ components_ne_nil some)
  have stripped := stripPrefix?_of_components _ p rest
  rw [layout, front, behind, trimRight_of_isName valid] at stripped
  simp [relativeToRoot, base, stripped, Layout.toPath]

theorem eq_dot_of_isSilent {piece : Bytes} (nonempty : piece ≠ []) (silent : isSilent piece) :
    piece = [dot] := by
  by_cases here : piece = [dot]
  · exact here
  · by_cases up : piece = [dot, dot] <;> simp [isSilent, ofPiece?, nonempty, here, up] at silent

theorem trimRight_append_last (before : List Bytes) {last : Bytes} {after : List Bytes}
    (loud : isSilent last = false) (silent : ∀ piece ∈ after, isSilent piece) :
    trimRight (before ++ last :: after) = before ++ [last] := by
  have none : ∀ piece ∈ after.reverse, isSilent piece :=
    fun piece mem => silent piece (List.mem_reverse.mp mem)
  rw [trimRight, List.reverse_append, List.reverse_cons, List.append_assoc,
    List.dropWhile_append_of_pos none]
  simp [loud]

theorem trimRight_last {last : Bytes} {after : List Bytes} (loud : isSilent last = false)
    (silent : ∀ piece ∈ after, isSilent piece) : trimRight (last :: after) = [last] :=
  trimRight_append_last [] loud silent

theorem parts_of_segmentNames {front : List Bytes} (valid : IsName name)
    (names : p.segmentNames = front ++ [name]) :
    ∃ before between after, p.layout.body = before ++ between ++ name :: after ∧
      dropLastComponent? p.layout.body = some before ∧
      (∀ piece ∈ between, isSilent piece) ∧ ∀ piece ∈ after, isSilent piece := by
  have whole := (layout_toPath p).1
  rw [names] at whole
  cases drop : dropLastComponent? p.layout.body with
  | none =>
    -- Nothing but dots would be left.
    have silent := silent_of_dropLastComponent? drop
    have mem : name ∈ p.layout.segmentNames := by simp [whole]
    rcases List.mem_append.mp mem with here | inner
    · split at here
      · exact absurd (List.mem_singleton.mp here) valid.notHere
      · cases here
    · obtain ⟨piece, nonempty⟩ := List.mem_filter.mp inner
      exact absurd (eq_dot_of_isSilent valid.nonempty (silent name piece)) valid.notHere
  | some before =>
    obtain ⟨between, last, after, body, loud, silent, silent'⟩ := parts_of_dropLastComponent? drop
    have nonempty : last ≠ [] := by
      intro empty
      simp [isSilent, ofPiece?, empty] at loud
    suffices same : last = name by
      subst same
      exact ⟨before, between, after, body, rfl, silent, silent'⟩
    have ends := congrArg List.getLast? whole
    rw [Layout.segmentNames, body, List.filter_append,
      List.filter_cons_of_pos (by simpa using nonempty)] at ends
    rcases List.eq_nil_or_concat (after.filter (· ≠ [])) with none | ⟨dots, piece, some⟩
    · rw [none] at ends
      simpa using ends
    · rw [List.concat_eq_append] at some
      have mem : piece ∈ after.filter (· ≠ []) := by
        rw [some]
        simp
      obtain ⟨there, named⟩ := List.mem_filter.mp mem
      have dotted := eq_dot_of_isSilent (by simpa using named) (silent' piece there)
      rw [some, ← List.cons_append, ← List.append_assoc, ← List.append_assoc,
        List.getLast?_concat, List.getLast?_concat] at ends
      exact absurd ((Option.some.inj ends).symm.trans dotted) valid.notHere

theorem relativeToRoot_self {front : List Bytes} (valid : IsName name)
    (names : p.segmentNames = front ++ [name]) :
    relativeToRoot p true p = .ok ⟨join [name]⟩ := by
  obtain ⟨before, between, after, body, drop, silent, silent'⟩ :=
    parts_of_segmentNames valid names
  have loud := isSilent_of_isName valid
  have proper := layout_proper p
  have up : p.layout.parent? = some ⟨p.layout.lead, before⟩ := by
    unfold Layout.parent?
    rw [drop]
  have parent : p.parent? = some (⟨p.layout.lead, before⟩ : Layout).toPath := by
    rw [parent?, up]
    rfl
  have same := Layout.toPath_components (Layout.parent?_within proper up).proper
  obtain ⟨last, rest⟩ := Layout.parent?_components up
  rw [← same] at rest
  have stripped := stripPrefix?_of_components p _ rest
  have layout : p.layout = ⟨p.layout.lead, before ++ (between ++ name :: after)⟩ := by
    rw [← List.append_assoc, ← body]
  have trimmed : trimRight ((between ++ name :: after).dropWhile isSilent) = [name] := by
    have none := List.dropWhile_eq_nil_iff.mpr silent
    rw [List.dropWhile_append, none]
    simp [loud, trimRight_last loud silent']
  rw [same] at stripped
  have ends : (p.layout.behind (⟨p.layout.lead, before⟩ : Layout).components.length).toPath =
      ⟨join [name]⟩ := by
    by_cases some : (⟨p.layout.lead, before⟩ : Layout).components = []
    · -- Without a lead nothing silent stands in front.
      have empty : p.layout.lead = none ∧ before.filterMap ofPiece? = [] := by
        simpa [Layout.components] using some
      have alone : before ++ between = [] := by
        cases front : before ++ between with
        | nil => rfl
        | cons piece rest =>
          obtain ⟨nonempty, notHere⟩ := proper.fronted empty.1 piece (by simp [body, front])
          have mem : piece ∈ before ++ between := by simp [front]
          have silent : isSilent piece := by
            rcases List.mem_append.mp mem with early | late
            · simpa [isSilent] using List.filterMap_eq_nil_iff.mp empty.2 piece early
            · exact silent piece late
          exact absurd (eq_dot_of_isSilent nonempty silent) notHere
      rw [alone, List.nil_append] at body
      rw [some, Layout.behind, List.length_nil, if_pos rfl, body, trimRight_last loud silent',
        empty.1]
      rfl
    · rw [layout]
      dsimp only
      rw [Layout.behind_front _ some, trimmed]
      rfl
  simp [relativeToRoot, base, parent, stripped, ends]

end Behind

section Joined

theorem components_join (valid : ∀ n ∈ names, IsName n) :
    (⟨join names⟩ : Path).components = names.map .name := by
  have bare : leading false names = [] := leading_append false [] valid
  rw [components_eq, isAbsolute_join valid, segmentNames_join valid, bare, filterMap_names valid,
    List.nil_append]

theorem names_join (valid : ∀ n ∈ names, IsName n) : (⟨join names⟩ : Path).names = names := by
  rw [Path.names, components_join valid, List.filterMap_map]
  exact List.filterMap_some

theorem join_concat (some : names ≠ []) (name : Bytes) :
    join (names ++ [name]) = join names ++ slash :: name := by
  induction names with
  | nil => contradiction
  | cons first rest ih =>
    cases rest with
    | nil => rfl
    | cons second rest =>
      have inner := ih (List.cons_ne_nil _ _)
      simp only [List.cons_append, join] at inner ⊢
      rw [inner, List.append_assoc, List.cons_append]

theorem getLast?_join (further : names ≠ []) (valid : ∀ n ∈ names, IsName n) :
    ∃ b, (join names).getLast? = some b ∧ b ≠ slash := by
  obtain ⟨front, last, whole⟩ := (List.eq_nil_or_concat names).resolve_left further
  rw [List.concat_eq_append] at whole
  have here := valid last (by simp [whole])
  have ends : (join names).getLast? = last.getLast? := by
    by_cases first : front = []
    · rw [whole, first]
      rfl
    · rw [whole, join_concat first, List.getLast?_append_of_ne_nil _ (List.cons_ne_nil _ _),
        List.getLast?_cons_of_ne_nil here.nonempty]
  refine ⟨last.getLast here.nonempty, ends.trans (List.getLast?_eq_some_getLast here.nonempty), ?_⟩
  intro slashed
  exact here.slashFree (slashed ▸ List.getLast_mem here.nonempty)

theorem append_child (further : names ≠ []) (valid : ∀ n ∈ names, IsName n) (named : IsName name) :
    (p.append ⟨join names⟩).child name = p.append ⟨join names ++ slash :: name⟩ := by
  obtain ⟨b, ends, other⟩ := getLast?_join further valid
  have relative := isAbsolute_join valid
  have longer : (⟨join names ++ slash :: name⟩ : Path).isAbsolute = false := by
    unfold isAbsolute at relative ⊢
    cases whole : join names with
    | nil => simp [whole] at ends
    | cons first rest => simpa [whole] using relative
  have last (bytes : Bytes) : (bytes ++ join names).getLast? = some b := by
    rw [List.getLast?_append, ends, Option.some_or]
  unfold child append
  rw [(relative_of_isName named).1, relative, longer]
  cases p.bytes.getLast? with
  | none => simp [ends, other]
  | some c =>
    by_cases slashed : c = slash
    · simp [slashed, last, other]
    · have behind : (p.bytes ++ slash :: join names).getLast? = some b := by
        rw [← List.singleton_append, ← List.append_assoc, last]
      simp only [Bool.false_eq_true, if_false, slashed, behind, other, List.append_assoc,
        List.cons_append]

theorem below_eq_append (further : names ≠ [])
    (valid : ∀ n ∈ names, IsName n) : p.below names = p.append ⟨join names⟩ := by
  induction names using List.reverseRecOn with
  | nil => contradiction
  | append_singleton front name ih =>
    obtain ⟨early, here⟩ := List.forall_mem_append.mp valid
    have last := here name List.mem_cons_self
    by_cases first : front = []
    · subst first
      rfl
    · rw [below_concat, ih first early, join_concat first, append_child first early last]

theorem fileName?_of_segmentNames {front : List Bytes} (valid : IsName name)
    (names : p.segmentNames = front ++ [name]) : p.fileName? = some name := by
  rw [fileName?, components_eq, names, List.filterMap_append]
  simp [ofPiece?_of_isName valid, Component.name?]

theorem getLast?_of_fileName? (named : p.fileName? = some name) :
    p.components.getLast? = some (.name name) := by
  obtain ⟨c, last, own⟩ := Option.bind_eq_some_iff.mp named
  cases c with
  | name bytes => exact Option.some.inj own ▸ last
  | _ => cases own

end Joined

end ModuleTree.Path
