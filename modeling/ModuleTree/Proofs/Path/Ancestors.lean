import Mathlib.Data.List.TakeWhile
import Mathlib.Logic.Relation
import ModuleTree.Proofs.Path.Segments
/- Parents and what stands above them. Each step up takes the last component away and leaves
   everything in front of it as it was. -/
namespace ModuleTree.Path

theorem takeWhile_silent (body : List Bytes) : ∀ piece ∈ body.takeWhile isSilent, isSilent piece :=
  fun _ mem => List.mem_takeWhile_imp mem

theorem parts_of_dropLastComponent? {body before : List Bytes}
    (h : dropLastComponent? body = some before) : ∃ between last after,
      body = before ++ between ++ last :: after ∧ isSilent last = false ∧
        (∀ piece ∈ between, isSilent piece) ∧ ∀ piece ∈ after, isSilent piece := by
  unfold dropLastComponent? at h
  split at h
  · contradiction
  · rename_i last front rest
    have outer := List.takeWhile_append_dropWhile (p := isSilent) (l := body.reverse)
    have inner := List.takeWhile_append_dropWhile (p := isSilent) (l := front)
    have loud := List.head_dropWhile_not isSilent (l := body.reverse) (by simp [rest])
    refine ⟨(front.takeWhile isSilent).reverse, last, (body.reverse.takeWhile isSilent).reverse,
      ?_, by simpa [rest] using loud, ?_, ?_⟩
    · rw [← Option.some.inj h, ← List.reverse_append, inner]
      rw [rest] at outer
      have whole := congrArg List.reverse outer
      rw [List.reverse_reverse, List.reverse_append, List.reverse_cons, List.append_assoc] at whole
      exact whole.symm
    · intro piece mem
      exact takeWhile_silent _ piece (List.mem_reverse.mp mem)
    · intro piece mem
      exact takeWhile_silent _ piece (List.mem_reverse.mp mem)

theorem silent_of_dropLastComponent? {body : List Bytes} (h : dropLastComponent? body = none) :
    ∀ piece ∈ body, isSilent piece := by
  unfold dropLastComponent? at h
  split at h
  · rename_i all
    intro piece mem
    exact List.dropWhile_eq_nil_iff.mp all piece (List.mem_reverse.mpr mem)
  · contradiction

theorem filterMap_silent {pieces : List Bytes} (silent : ∀ piece ∈ pieces, isSilent piece) :
    pieces.filterMap ofPiece? = [] := by
  apply List.filterMap_eq_nil_iff.mpr
  intro piece mem
  simpa [isSilent] using silent piece mem

namespace Layout

variable {l above : Layout}

structure Within (above l : Layout) : Prop where
  proper : above.Proper
  names : above.segmentNames <+: l.segmentNames
  root : above.lead = some .root ↔ l.lead = some .root

theorem proper_front {lead : Option Lead} {before body : List Bytes}
    (proper : (⟨lead, body⟩ : Layout).Proper) (early : before <+: body) :
    (⟨lead, before⟩ : Layout).Proper := by
  obtain ⟨rest, whole⟩ := early
  subst whole
  constructor
  · intro piece mem
    exact proper.slashFree piece (List.mem_append_left rest mem)
  · intro plain piece first
    apply proper.fronted plain piece
    cases before with
    | nil => cases first
    | cons _ _ => exact first

theorem within_front {lead : Option Lead} {before body : List Bytes}
    (proper : (⟨lead, body⟩ : Layout).Proper) (early : before <+: body) :
    (⟨lead, before⟩ : Layout).Within ⟨lead, body⟩ :=
  ⟨proper_front proper early,
    (List.prefix_append_right_inj _).mpr (early.filter _), Iff.rfl⟩

theorem parent?_within (proper : l.Proper) (up : l.parent? = some above) : above.Within l := by
  obtain ⟨lead, body⟩ := l
  unfold parent? at up
  split at up
  · rename_i before drop
    obtain ⟨between, last, after, whole, _⟩ := parts_of_dropLastComponent? drop
    cases up
    apply within_front proper
    change body = _ at whole
    rw [whole, List.append_assoc]
    exact List.prefix_append before _
  · split at up
    · rename_i here
      cases up
      refine ⟨⟨by simp, by simp⟩, List.nil_prefix, ?_⟩
      change lead = _ at here
      simp [here]
    · contradiction

theorem parent?_components (up : l.parent? = some above) :
    ∃ last, l.components = above.components ++ [last] := by
  obtain ⟨lead, body⟩ := l
  unfold parent? at up
  split at up
  · rename_i before drop
    obtain ⟨between, last, after, whole, loud, silent, silent'⟩ := parts_of_dropLastComponent? drop
    cases up
    change body = _ at whole
    obtain ⟨c, named⟩ := Option.isSome_iff_exists.mp (show (ofPiece? last).isSome by
      simpa [isSilent] using loud)
    refine ⟨c, ?_⟩
    simp [components, whole, filterMap_silent silent, filterMap_silent silent', named]
  · rename_i none
    split at up
    · rename_i here
      cases up
      change lead = _ at here
      have silent : ∀ piece ∈ body, isSilent piece := silent_of_dropLastComponent? none
      refine ⟨.here, ?_⟩
      simp [components, here, filterMap_silent silent, Lead.component]
    · contradiction

theorem ancestors_within (proper : l.Proper) : ∀ above ∈ l.ancestors, above.Within l := by
  induction l using ancestors.induct with
  | case1 l none =>
    rw [ancestors]
    split
    · simp
    · rename_i up
      simp [none] at up
  | case2 l parent up ih =>
    have first := parent?_within proper up
    rw [ancestors]
    split
    · simp
    · rename_i other up'
      cases up.symm.trans up'
      intro above mem
      rcases List.mem_cons.mp mem with same | later
      · exact same ▸ first
      · have rest := ih first.proper above later
        exact ⟨rest.proper, rest.names.trans first.names, rest.root.trans first.root⟩

end Layout

structure OnTheWay (above p : Path) : Prop where
  absolute : above.isAbsolute = p.isAbsolute
  names : above.segmentNames <+: p.segmentNames

variable {p q parent : Path}

theorem OnTheWay.trans {r : Path} (first : OnTheWay p q) (second : OnTheWay q r) : OnTheWay p r :=
  ⟨first.absolute.trans second.absolute, first.names.trans second.names⟩

theorem onTheWay_of_within {above : Layout} (within : above.Within p.layout) :
    OnTheWay above.toPath p := by
  obtain ⟨names, absolute⟩ := layout_toPath p
  constructor
  · rw [Layout.toPath_isAbsolute within.proper, ← absolute]
    simp [within.root]
  · rw [Layout.toPath_segmentNames within.proper, ← names]
    exact within.names

theorem onTheWay_of_parent? (up : p.parent? = some parent) : OnTheWay parent p := by
  unfold parent? at up
  obtain ⟨above, above_, same⟩ := Option.map_eq_some_iff.mp up
  exact same ▸ onTheWay_of_within (Layout.parent?_within (layout_proper p) above_)

theorem parent?_components (up : p.parent? = some parent) :
    ∃ last, p.components = parent.components ++ [last] := by
  obtain ⟨above, there, rfl⟩ := Option.map_eq_some_iff.mp up
  have proper := (Layout.parent?_within (layout_proper p) there).proper
  rw [Layout.toPath_components proper]
  exact Layout.parent?_components there

theorem shorter_of_parent? (up : p.parent? = some parent) :
    ∃ more, more ≠ [] ∧ p.segmentNames = parent.segmentNames ++ more := by
  have way := onTheWay_of_parent? up
  obtain ⟨more, whole⟩ := way.names
  refine ⟨more, ?_, whole.symm⟩
  rintro rfl
  rw [List.append_nil] at whole
  have same : parent.components = p.components := by
    rw [components_eq, components_eq, way.absolute, whole]
  obtain ⟨last, components⟩ := parent?_components up
  rw [components] at same
  simpa using congrArg List.length same

theorem onTheWay_of_mem_chain (mem : q ∈ p.chain) : OnTheWay q p := by
  rcases List.mem_cons.mp mem with same | above
  · exact same ▸ ⟨rfl, List.prefix_rfl⟩
  · obtain ⟨l, there, same⟩ := List.mem_map.mp above
    exact same ▸ onTheWay_of_within (Layout.ancestors_within (layout_proper p) l there)

section Bytes

theorem join_cons {rest : List Bytes} (some : rest ≠ []) (piece : Bytes) :
    join (piece :: rest) = piece ++ slash :: join rest := by
  cases rest with
  | nil => contradiction
  | cons second rest => rfl

theorem join_split (bytes : Bytes) : join (split bytes) = bytes := by
  induction bytes with
  | nil => rfl
  | cons b bytes ih =>
    by_cases here : b = slash
    · rw [split, if_pos here, join_cons (split_ne_nil bytes), ih, here, List.nil_append]
    · obtain ⟨piece, pieces, whole⟩ := List.exists_cons_of_ne_nil (split_ne_nil bytes)
      rw [whole] at ih
      rw [split_cons here whole, ← ih]
      cases pieces with
      | nil => rfl
      | cons second rest => rfl

theorem join_front (front rest : List Bytes) : join front <+: join (front ++ rest) := by
  induction front with
  | nil => exact List.nil_prefix
  | cons piece pieces ih =>
    by_cases last : pieces = []
    · subst last
      cases rest with
      | nil => exact List.prefix_rfl
      | cons second rest => exact List.prefix_append piece _
    · rw [List.cons_append, join_cons last, join_cons (by simp [last])]
      exact (List.prefix_append_right_inj piece).mpr ((List.prefix_cons_inj slash).mpr ih)

theorem toPath_layout (p : Path) : p.layout.toPath = p := by
  obtain ⟨bytes⟩ := p
  cases bytes with
  | nil => rfl
  | cons b bytes =>
    by_cases root : b = slash
    · simp [layout, root, Layout.toPath, join_split]
    · have all := join_split (b :: bytes)
      obtain ⟨piece, pieces, rest⟩ := List.exists_cons_of_ne_nil (split_ne_nil bytes)
      rw [split_cons root rest] at all
      by_cases here : b :: piece = [dot]
      · rw [here] at all
        simp [layout, root, split_cons root rest, here, Layout.toPath, all]
      · simp [layout, root, split_cons root rest, here, Layout.toPath, all]

theorem bytes_of_parent? (up : p.parent? = some parent) : parent.bytes <+: p.bytes := by
  obtain ⟨above, there, same⟩ := Option.map_eq_some_iff.mp up
  have whole := toPath_layout p
  generalize p.layout = l at there whole
  subst whole same
  obtain ⟨lead, body⟩ := l
  unfold Layout.parent? at there
  split at there
  · rename_i before drop
    obtain ⟨between, last, after, split, _⟩ := parts_of_dropLastComponent? drop
    cases there
    dsimp only at split
    rw [split, List.append_assoc]
    cases lead with
    | none => exact join_front _ _
    | some lead =>
      cases lead with
      | root => exact (List.prefix_cons_inj slash).mpr (join_front _ _)
      | here => exact join_front ([dot] :: before) _
  · split at there
    · cases there
      exact List.nil_prefix
    · cases there

theorem bytes_of_append (relative : q.isAbsolute = false) : p.bytes <+: (p.append q).bytes := by
  unfold append
  rw [if_neg (by simp [relative])]
  split
  · rename_i empty
    rw [List.getLast?_eq_none_iff.mp empty]
    exact List.nil_prefix
  · split
    · exact List.prefix_append _ _
    · exact List.prefix_append _ _

end Bytes

section Chain

theorem layout_of_toPath {l : Layout} (proper : l.Proper) (notRoot : l ≠ ⟨some .root, []⟩) :
    l.toPath.layout = l := by
  obtain ⟨lead, body⟩ := l
  cases lead with
  | none =>
    cases body with
    | nil => rfl
    | cons piece rest =>
      obtain ⟨nonempty, notHere⟩ := proper.fronted rfl piece rfl
      obtain ⟨b, tail, rfl⟩ := List.exists_cons_of_ne_nil nonempty
      have inner : b ≠ slash := fun same =>
        proper.slashFree _ List.mem_cons_self (same ▸ List.mem_cons_self)
      have whole := split_join (List.cons_ne_nil _ rest) proper.slashFree
      obtain ⟨more, written⟩ : ∃ more, join ((b :: tail) :: rest) = b :: more := by
        by_cases last : rest = []
        · exact ⟨tail, by rw [last]; rfl⟩
        · exact ⟨_, join_cons last _⟩
      rw [written] at whole
      simp [Layout.toPath, written, layout, inner, whole, notHere]
  | some lead =>
    cases lead with
    | root =>
      have some : body ≠ [] := by
        rintro rfl
        exact notRoot rfl
      simp [Layout.toPath, layout, split_join some proper.slashFree]
    | here =>
      have all : ∀ piece ∈ [dot] :: body, slash ∉ piece :=
        List.forall_mem_cons.mpr ⟨by decide, proper.slashFree⟩
      have whole := split_join (List.cons_ne_nil _ body) all
      obtain ⟨more, written⟩ : ∃ more, join ([dot] :: body) = dot :: more := by
        by_cases last : body = []
        · exact ⟨[], by rw [last]; rfl⟩
        · exact ⟨_, join_cons last _⟩
      rw [written] at whole
      simp [Layout.toPath, written, layout, whole, show dot ≠ slash by decide]

theorem ancestors_of_toPath {l : Layout} (proper : l.Proper) :
    l.toPath.layout.ancestors.map Layout.toPath = l.ancestors.map Layout.toPath := by
  by_cases root : l = ⟨some .root, []⟩
  · subst root
    have none (body : List Bytes) (up : (⟨some .root, body⟩ : Layout).parent? = none) :
        (⟨some .root, body⟩ : Layout).ancestors = [] := by
      rw [Layout.ancestors]
      split
      · rfl
      · rename_i there
        cases up.symm.trans there
    have left : (⟨some .root, []⟩ : Layout).toPath.layout = ⟨some .root, [[]]⟩ := rfl
    rw [left, none _ rfl, none _ rfl]
  · rw [layout_of_toPath proper root]

theorem chain_eq (p : Path) :
    p.chain = p :: (p.parent?.map chain).getD [] := by
  unfold chain
  rw [Layout.ancestors, parent?]
  split
  · rename_i none
    simp [none]
  · rename_i above up
    have proper := (Layout.parent?_within (layout_proper p) up).proper
    simp [up, ancestors_of_toPath proper]

/-- One step up. A path is above another one when such steps lead there. -/
def Up (p parent : Path) : Prop := p.parent? = some parent

theorem spelled_of_above (h : Relation.TransGen Up p q) :
    q.bytes <+: p.bytes ∧ ∃ more, more ≠ [] ∧ p.segmentNames = q.segmentNames ++ more := by
  induction h with
  | single up => exact ⟨bytes_of_parent? up, shorter_of_parent? up⟩
  | tail _ up ih =>
    obtain ⟨written, more, some, names⟩ := ih
    obtain ⟨more', _, names'⟩ := shorter_of_parent? up
    refine ⟨(bytes_of_parent? up).trans written, more' ++ more, by simp [some], ?_⟩
    rw [names, names', List.append_assoc]

theorem components_of_above (h : Relation.ReflTransGen Up p q) :
    q.components <+: p.components := by
  induction h with
  | refl => exact List.prefix_rfl
  | tail _ up ih =>
    obtain ⟨last, whole⟩ := parent?_components up
    exact (whole ▸ List.prefix_append _ [last]).trans ih

theorem mem_chain_iff : q ∈ p.chain ↔ Relation.ReflTransGen Up p q := by
  constructor
  · intro mem
    -- On the number of names, of which a parent has fewer.
    induction size : p.segmentNames.length using Nat.strong_induction_on generalizing p with
    | _ count ih =>
      rw [chain_eq] at mem
      rcases List.mem_cons.mp mem with rfl | above
      · exact .refl
      · cases up : p.parent? with
        | none => simp [up] at above
        | some a =>
          obtain ⟨more, some, whole⟩ := shorter_of_parent? up
          have shorter : a.segmentNames.length < count := by
            rw [← size, whole, List.length_append]
            exact Nat.lt_add_of_pos_right (List.length_pos_iff.mpr some)
          exact .head up (ih _ shorter (by simpa [up] using above) rfl)
  · intro way
    induction way using Relation.ReflTransGen.head_induction_on with
    | refl =>
      rw [chain_eq]
      exact List.mem_cons_self
    | head up _ mem =>
      rw [chain_eq, show Path.parent? _ = _ from up]
      exact List.mem_cons_of_mem _ mem

theorem named_of_up (up : p.Up q) : p.isEmpty = false := by
  cases named : p.isEmpty with
  | false => rfl
  | true =>
    rw [eq_empty_of_isEmpty named] at up
    cases up

theorem named_of_above (way : Relation.ReflTransGen Up p q) (named : q.isEmpty = false) :
    p.isEmpty = false := by
  rcases Relation.ReflTransGen.cases_head way with rfl | ⟨_, up, _⟩
  · exact named
  · exact named_of_up up

end Chain

section Names

variable {pieces : List Bytes}

theorem dots_of_silent (silent : ∀ piece ∈ pieces, isSilent piece) :
    ∀ piece ∈ pieces.filter (· ≠ []), piece = [dot] := by
  intro piece mem
  obtain ⟨there, nonempty⟩ := List.mem_filter.mp mem
  have quiet := silent piece there
  by_contra other
  have nonempty : piece ≠ [] := by simpa using nonempty
  by_cases up : piece = [dot, dot] <;> simp [isSilent, ofPiece?, nonempty, other, up] at quiet

theorem nonempty_of_loud {piece : Bytes} (loud : isSilent piece = false) :
    piece ≠ [] ∧ piece ≠ [dot] := by
  constructor <;> rintro rfl <;> simp [isSilent, ofPiece?] at loud

namespace Layout

variable {l above : Layout}

theorem names_of_parent? (up : l.parent? = some above) : ∃ dots last after,
    l.segmentNames = above.segmentNames ++ dots ++ last :: after ∧
      (∀ d ∈ dots, d = [dot]) ∧ ∀ d ∈ after, d = [dot] := by
  obtain ⟨lead, body⟩ := l
  unfold parent? at up
  split at up
  · rename_i before drop
    obtain ⟨between, last, after, whole, loud, silent, silent'⟩ := parts_of_dropLastComponent? drop
    cases up
    change body = _ at whole
    refine ⟨_, last, _, ?_, dots_of_silent silent, dots_of_silent silent'⟩
    simp [segmentNames, whole, (nonempty_of_loud loud).1]
  · rename_i none
    split at up
    · rename_i here
      cases up
      change lead = _ at here
      have silent : ∀ piece ∈ body, isSilent piece := silent_of_dropLastComponent? none
      refine ⟨[], [dot], _, ?_, by simp, dots_of_silent silent⟩
      simp [segmentNames, here]
    · contradiction

theorem dots_of_dotted_parent? (up : l.parent? = some above)
    (dotted : above.segmentNames.getLast? = some [dot]) : ∀ d ∈ above.segmentNames, d = [dot] := by
  obtain ⟨lead, body⟩ := l
  unfold parent? at up
  split at up
  · rename_i before drop
    cases up
    unfold dropLastComponent? at drop
    split at drop
    · contradiction
    · rename_i front rest
      rcases List.eq_nil_or_concat before with none | ⟨init, last, whole⟩
      · intro d mem
        subst none
        simp only [segmentNames] at mem
        split at mem <;> simp_all
      · have loud := List.head?_dropWhile_not isSilent front
        have reversed := congrArg List.reverse (Option.some.inj drop)
        rw [List.reverse_reverse, whole, List.concat_eq_append, List.reverse_append,
          List.reverse_singleton] at reversed
        simp only [reversed, List.singleton_append, List.head?_cons] at loud
        obtain ⟨nonempty, notHere⟩ := nonempty_of_loud (by simpa using loud)
        simp [segmentNames, whole, nonempty, notHere] at dotted
  · split at up
    · cases up
      simp [segmentNames]
    · contradiction

theorem dots_of_parentless (top : l.parent? = none) : ∀ d ∈ l.segmentNames, d = [dot] := by
  obtain ⟨lead, body⟩ := l
  unfold parent? at top
  split at top
  · contradiction
  · rename_i none
    have silent : ∀ piece ∈ body, isSilent piece := silent_of_dropLastComponent? none
    intro d mem
    rcases List.mem_append.mp mem with front | later
    · split at front <;> simp_all
    · exact dots_of_silent silent d later

end Layout

variable {p a : Path}

theorem names_of_up (up : p.Up a) : ∃ dots last after,
    p.segmentNames = a.segmentNames ++ dots ++ last :: after ∧
      (∀ d ∈ dots, d = [dot]) ∧ ∀ d ∈ after, d = [dot] := by
  obtain ⟨above, there, rfl⟩ := Option.map_eq_some_iff.mp up
  have proper := (Layout.parent?_within (layout_proper p) there).proper
  rw [Layout.toPath_segmentNames proper, ← (layout_toPath p).1]
  exact Layout.names_of_parent? there

theorem last_of_up (up : p.Up a) (undotted : p.segmentNames.getLast? ≠ some [dot]) :
    ∃ dots last, p.segmentNames = a.segmentNames ++ dots ++ [last] ∧ ∀ d ∈ dots, d = [dot] := by
  obtain ⟨dots, last, after, whole, between, behind⟩ := names_of_up up
  rcases List.eq_nil_or_concat after with none | ⟨init, d, some⟩
  · exact ⟨dots, last, none ▸ whole, between⟩
  · have dotted : d = [dot] := behind d (by simp [some])
    rw [whole, some, List.concat_eq_append, ← List.cons_append, ← List.append_assoc,
      List.getLast?_concat, dotted] at undotted
    exact absurd rfl undotted

theorem dots_of_dotted_up (up : p.Up a) (dotted : a.segmentNames.getLast? = some [dot]) :
    ∀ d ∈ a.segmentNames, d = [dot] := by
  obtain ⟨above, there, rfl⟩ := Option.map_eq_some_iff.mp up
  have proper := (Layout.parent?_within (layout_proper p) there).proper
  rw [Layout.toPath_segmentNames proper] at dotted ⊢
  exact Layout.dots_of_dotted_parent? there dotted

theorem dots_of_top (top : p.parent? = none) : ∀ d ∈ p.segmentNames, d = [dot] := by
  rw [← (layout_toPath p).1]
  exact Layout.dots_of_parentless (Option.map_eq_none_iff.mp top)

end Names

end ModuleTree.Path
