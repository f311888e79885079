import ModuleTree.Path.Name
import ModuleTree.Proofs.Path.Below
/- Paths without their extension. A path is cut behind the stem of its last name and read again, so
   that all its names stay but the last one, of which the stem is left; a stem that is a dot or
   two dots names nothing when it is read. -/
namespace ModuleTree.Path

variable {p : Path} {name front ext : Bytes} {l : Layout}

section Stem

theorem split_at_last {α : Type} {a : α} {l : List α} (mem : a ∈ l) :
    ∃ front rest, l = front ++ a :: rest ∧ a ∉ rest := by
  obtain ⟨rest, front, whole, other⟩ := List.eq_append_cons_of_mem (List.mem_reverse.mpr mem)
  refine ⟨front.reverse, rest.reverse, ?_, fun mem => other (List.mem_reverse.mp mem)⟩
  rw [← List.reverse_reverse l, whole]
  simp

theorem stem_whole (plain : dot ∉ name) : stem name = name := by
  have none : name.reverse.dropWhile (· ≠ dot) = [] := by
    refine List.dropWhile_eq_nil_iff.mpr fun b mem => decide_eq_true ?_
    rintro rfl
    exact plain (List.mem_reverse.mp mem)
  unfold stem
  rw [none]
  split <;> rfl

theorem behind_last_dot (plain : dot ∉ ext) (front : Bytes) :
    (front ++ dot :: ext).reverse.dropWhile (· ≠ dot) = dot :: front.reverse := by
  have before : ∀ b ∈ ext.reverse, decide (b ≠ dot) = true := by
    intro b mem
    refine decide_eq_true ?_
    rintro rfl
    exact plain (List.mem_reverse.mp mem)
  rw [List.reverse_append, List.reverse_cons, List.append_assoc,
    List.dropWhile_append_of_pos before]
  simp

theorem stem_cut (front : Bytes) (plain : dot ∉ ext) (some : front ≠ [])
    (notUp : front ++ dot :: ext ≠ [dot, dot]) : stem (front ++ dot :: ext) = front := by
  unfold stem
  rw [if_neg notUp, behind_last_dot plain]
  simp [some]

theorem stem_dotted (plain : dot ∉ ext) : stem (dot :: ext) = dot :: ext := by
  have behind := behind_last_dot plain []
  rw [List.nil_append] at behind
  unfold stem
  rw [behind]
  split <;> rfl

theorem stem_cases (name : Bytes) : stem name = name ∨
    ∃ ext, dot ∉ ext ∧ stem name ≠ [] ∧ name = stem name ++ dot :: ext := by
  by_cases up : name = [dot, dot]
  · exact .inl (if_pos up)
  by_cases dotted : dot ∈ name
  · obtain ⟨front, ext, whole, plain⟩ := split_at_last dotted
    by_cases some : front = []
    · left
      rw [whole, some]
      exact stem_dotted plain
    · right
      have cut : stem name = front := by
        rw [whole] at up ⊢
        exact stem_cut front plain some up
      exact ⟨ext, plain, cut ▸ some, by rw [cut, whole]⟩
  · exact .inl (stem_whole dotted)

theorem prefix_of_stem (name : Bytes) : stem name <+: name := by
  rcases stem_cases name with whole | ⟨ext, _, _, cut⟩
  · exact ⟨[], by rw [List.append_nil, whole]⟩
  · exact ⟨dot :: ext, cut.symm⟩

theorem stem_ne_nil (some : name ≠ []) : stem name ≠ [] := by
  rcases stem_cases name with whole | ⟨_, _, filled, _⟩
  · rwa [whole]
  · exact filled

end Stem

section Names

/-- What a piece of a path names, if it is a name and no dot or two. -/
def nameOf? (piece : Bytes) : Option Bytes := (ofPiece? piece).bind Component.name?

theorem nameOf?_of_isName (valid : IsName name) : nameOf? name = some name := by
  rw [nameOf?, ofPiece?_of_isName valid]
  rfl

theorem nameOf?_of_silent {piece : Bytes} (silent : isSilent piece) : nameOf? piece = none := by
  rw [isSilent, Option.isNone_iff_eq_none] at silent
  rw [nameOf?, silent]
  rfl

theorem names_eq (p : Path) : p.names = p.segmentNames.filterMap nameOf? := by
  have none : (leading p.isAbsolute p.segmentNames).filterMap Component.name? = [] := by
    unfold leading
    split
    · rfl
    · split <;> rfl
  rw [names, components_eq, List.filterMap_append, none, List.filterMap_filterMap, List.nil_append]
  rfl

theorem isName_of_ofPiece? {piece : Bytes} (free : slash ∉ piece)
    (named : ofPiece? piece = some (.name name)) : piece = name ∧ IsName name := by
  unfold ofPiece? at named
  split at named
  · cases named
  · rename_i loud
    split at named
    · cases named
    · rename_i notUp
      cases named
      have loud : name ≠ [] ∧ name ≠ [dot] := by simpa using loud
      exact ⟨rfl, loud.1, free, loud.2, notUp⟩

theorem mem_names (mem : name ∈ p.names) : name ∈ split p.bytes ∧ IsName name := by
  rw [names_eq] at mem
  obtain ⟨piece, there, named⟩ := List.mem_filterMap.mp mem
  obtain ⟨c, read, own⟩ := Option.bind_eq_some_iff.mp named
  have written := (List.mem_filter.mp there).1
  cases c with
  | name bytes =>
    cases own
    obtain ⟨rfl, valid⟩ := isName_of_ofPiece? (slashFree_of_mem_split written) read
    exact ⟨written, valid⟩
  | _ => cases own

theorem names_toPath (free : ∀ piece ∈ l.body, slash ∉ piece) :
    l.toPath.names = l.body.filterMap nameOf? := by
  have filled : (l.body.filter (· ≠ [])).filterMap nameOf? = l.body.filterMap nameOf? := by
    rw [List.filterMap_filter]
    congr 1
    funext piece
    by_cases empty : piece = [] <;> simp [empty, nameOf?, ofPiece?]
  rw [names_eq, Layout.segmentNames_toPath free, Layout.segmentNames, List.filterMap_append, filled]
  split <;> rfl

theorem isName_stem (valid : IsName name) (visible : isHidden name = false) :
    IsName (stem name) := by
  have same : (stem name).head? = name.head? := by
    obtain ⟨ext, whole⟩ := prefix_of_stem name
    conv_rhs => rw [← whole]
    exact (List.head?_append_of_ne_nil _ (stem_ne_nil valid.nonempty)).symm
  have front : (stem name).head? ≠ some dot := by simpa [isHidden, same] using visible
  refine ⟨stem_ne_nil valid.nonempty, fun mem => valid.slashFree ((prefix_of_stem name).subset mem),
    ?_, ?_⟩ <;>
  · intro dots
    rw [dots] at front
    exact front rfl

end Names

section Last

theorem body_of_fileName? (named : p.fileName? = some name) :
    ∃ before after, p.layout.body = before ++ name :: after ∧
      (∀ piece ∈ after, isSilent piece) ∧ IsName name := by
  have last := getLast?_of_fileName? named
  rw [components, Layout.components] at last
  cases drop : dropLastComponent? p.layout.body with
  | none =>
    rw [filterMap_silent (silent_of_dropLastComponent? drop), List.append_nil] at last
    cases lead : p.layout.lead with
    | none => simp [lead] at last
    | some lead' => cases lead' <;> simp [lead, Lead.component] at last
  | some before =>
    obtain ⟨between, piece, after, body, loud, _, silent⟩ := parts_of_dropLastComponent? drop
    obtain ⟨c, there⟩ : ∃ c, ofPiece? piece = some c :=
      Option.isSome_iff_exists.mp (by simpa [isSilent] using loud)
    have ends : p.layout.body.filterMap ofPiece? =
        (before ++ between).filterMap ofPiece? ++ [c] := by
      rw [body, List.filterMap_append, List.filterMap_cons, there, filterMap_silent silent]
    rw [ends, ← List.append_assoc, List.getLast?_concat] at last
    have free : slash ∉ piece := (layout_proper p).slashFree piece (by simp [body])
    obtain ⟨rfl, valid⟩ := isName_of_ofPiece? free (there.trans last)
    exact ⟨before ++ between, after, body, silent, valid⟩

theorem bytes_toPath_concat (lead : Option Lead) (before : List Bytes) :
    ∃ written, ∀ piece, (⟨lead, before ++ [piece]⟩ : Layout).toPath.bytes = written ++ piece := by
  have joined {pieces : List Bytes} (some : pieces ≠ []) (piece : Bytes) :
      join (pieces ++ [piece]) = (join pieces ++ [slash]) ++ piece := by
    rw [join_concat some, List.append_assoc, List.singleton_append]
  cases lead with
  | none =>
    by_cases some : before = []
    · exact ⟨[], fun piece => by rw [some]; rfl⟩
    · exact ⟨_, joined some⟩
  | some lead =>
    cases lead with
    | root =>
      by_cases some : before = []
      · exact ⟨[slash], fun piece => by rw [some]; rfl⟩
      · exact ⟨slash :: _, fun piece => congrArg (slash :: ·) (joined some piece)⟩
    | here => exact ⟨_, joined (List.cons_ne_nil [dot] before)⟩

theorem withoutExtension_eq {before after : List Bytes} (named : p.fileName? = some name)
    (body : p.layout.body = before ++ name :: after) (silent : ∀ piece ∈ after, isSilent piece)
    (valid : IsName name) :
    p.withoutExtension = (⟨p.layout.lead, before ++ [stem name]⟩ : Layout).toPath := by
  obtain ⟨written, ends⟩ := bytes_toPath_concat p.layout.lead before
  obtain ⟨ext, whole⟩ := prefix_of_stem name
  have upTo : (⟨p.layout.lead, trimRight p.layout.body⟩ : Layout).toPath.bytes =
      (written ++ stem name) ++ ext := by
    rw [body, trimRight_append_last before (isSilent_of_isName valid) silent, ends, List.append_assoc,
      whole]
  have long := congrArg List.length whole
  rw [List.length_append] at long
  have size : ((written ++ stem name) ++ ext).length - (name.length - (stem name).length) =
      (written ++ stem name).length := by
    simp only [List.length_append]
    omega
  unfold withoutExtension
  rw [named]
  dsimp only
  rw [upTo, size, List.take_left, ← ends]

theorem names_withoutExtension (named : p.fileName? = some name) :
    ∃ front, p.names = front ++ [name] ∧
      p.withoutExtension.names = front ++ (nameOf? (stem name)).toList := by
  obtain ⟨before, after, body, silent, valid⟩ := body_of_fileName? named
  have free := (layout_proper p).slashFree
  refine ⟨before.filterMap nameOf?, ?_, ?_⟩
  · have none : after.filterMap nameOf? = [] :=
      List.filterMap_eq_nil_iff.mpr fun piece mem => nameOf?_of_silent (silent piece mem)
    have names := names_toPath free
    rw [toPath_layout] at names
    rw [names, body, List.filterMap_append, List.filterMap_cons, nameOf?_of_isName valid, none]
  · rw [withoutExtension_eq named body silent valid, names_toPath, List.filterMap_append]
    · cases cut : nameOf? (stem name) <;> simp [cut]
    · rw [body] at free
      obtain ⟨early, here⟩ := List.forall_mem_append.mp free
      refine List.forall_mem_append.mpr ⟨early, ?_⟩
      simp only [List.mem_singleton, forall_eq]
      exact fun mem => valid.slashFree ((prefix_of_stem name).subset mem)

theorem parent_of_fileName? (named : p.fileName? = some name) :
    ∃ parent, p.parent? = some parent ∧ p.components = parent.components ++ [.name name] := by
  obtain ⟨before, after, body, silent, valid⟩ := body_of_fileName? named
  have none : ∀ piece ∈ after.reverse, isSilent piece :=
    fun piece mem => silent piece (List.mem_reverse.mp mem)
  obtain ⟨above, up⟩ : ∃ above, p.layout.parent? = some above := by
    simp [Layout.parent?, dropLastComponent?, body, List.dropWhile_append_of_pos none,
      isSilent_of_isName valid]
  have up : p.parent? = some above.toPath := by rw [parent?, up]; rfl
  obtain ⟨last, whole⟩ := parent?_components up
  refine ⟨above.toPath, up, ?_⟩
  have ends := getLast?_of_fileName? named
  rw [whole, List.getLast?_concat] at ends
  rw [← Option.some.inj ends]
  exact whole

end Last

end ModuleTree.Path
