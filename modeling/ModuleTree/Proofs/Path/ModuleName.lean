import ModuleTree.Proofs.Path.Stem
import ModuleTree.Proofs.Text.Lossy
/- Module names inferred from paths that are texts. Such a name is the names of the path between
   slashes, the last one without its extension, so two paths have one module name only where
   their parents have the same components and their last names the same stem. -/
namespace ModuleTree.Path
open Text

/-- A relative path of names and nothing else, the last of which is not hidden. -/
structure Modular (p : Path) : Prop where
  named : ∀ c ∈ p.components, ∃ name, c = .name name
  filled : p.components ≠ []
  visible : ∀ name, p.fileName? = some name → isHidden name = false

/-- A name cut before its last dot. A name without dots stays whole. -/
inductive Cut : String → String → Prop where
  | whole {name : String} (plain : '.' ∉ name.toList) : Cut name name
  | before {front ext : String} (plain : '.' ∉ ext.toList) : Cut (front ++ "." ++ ext) front

/-- What the module name of a path is made of: the names of its parent, and its own name cut
before the last dot, which is its stem. -/
structure Inferred (p : Path) (front : List String) (last short : String) : Prop where
  components : p.components = (front ++ [last]).map fun name => .name (encode name)
  parent : p.parent?.map Path.components = some (front.map fun name => .name (encode name))
  cut : Cut last short
  stem : p.fileName?.map stem = some (encode short)
  moduleName : p.inferModuleName = "/".intercalate (front ++ [short])

variable {p : Path} {text : String} {name : Bytes}

section Texts

theorem encode_injective : Function.Injective encode :=
  Function.LeftInverse.injective lossy_encode

theorem split_append_front {a b : Bytes} (free : slash ∉ a) :
    split (a ++ b) = (split b).modifyHead (a ++ ·) := by
  induction a with
  | nil =>
    rw [List.nil_append]
    cases split b <;> rfl
  | cons c a ih =>
    rw [List.mem_cons, not_or] at free
    obtain ⟨piece, pieces, rest⟩ := List.exists_cons_of_ne_nil (split_ne_nil b)
    rw [rest, List.modifyHead_cons] at ih
    rw [List.cons_append, split_cons (Ne.symm free.1) (ih free.2), rest]
    rfl

theorem split_encode (letters : List Char) :
    split (encode (.ofList letters)) =
      (letters.splitOn '/').map fun piece => encode (.ofList piece) := by
  simp only [encode, String.toList_ofList]
  induction letters with
  | nil => rfl
  | cons c letters ih =>
    rw [List.flatMap_cons, List.splitOn_cons_eq_if_modifyHead]
    by_cases here : c = '/'
    · subst here
      have same : String.utf8EncodeChar '/' = [slash] := by decide
      simp [same, split, ih]
    · have free : slash ∉ String.utf8EncodeChar c :=
        fun mem => here (eq_of_mem_encodeChar (c := '/') (by decide) mem).symm
      rw [split_append_front free, ih, if_neg (by simpa using here)]
      cases letters.splitOn '/' <;> simp

theorem encode_lossy_of_mem_names (mem : name ∈ (ofString text).names) :
    encode (lossy name) = name := by
  have written := (mem_names mem).1
  rw [ofString, ← String.ofList_toList (s := text), split_encode] at written
  obtain ⟨letters, _, rfl⟩ := List.mem_map.mp written
  rw [lossy_encode]

theorem slash_mem_encode {text : String} : slash ∈ encode text ↔ '/' ∈ text.toList :=
  mem_flatMap_encodeChar (c := '/') (by decide)

theorem dot_mem_encode {text : String} : dot ∈ encode text ↔ '.' ∈ text.toList :=
  mem_flatMap_encodeChar (c := '.') (by decide)

theorem encode_dotted (front ext : String) :
    encode (front ++ "." ++ ext) = encode front ++ dot :: encode ext := by
  have same : String.utf8EncodeChar '.' = [dot] := by decide
  simp [encode, same]

theorem stem_encode (last : String) (visible : isHidden (encode last) = false) :
    ∃ short, Cut last short ∧ stem (encode last) = encode short := by
  by_cases dotted : '.' ∈ last.toList
  · obtain ⟨front, ext, whole, plain⟩ := split_at_last dotted
    obtain rfl : last = .ofList front ++ "." ++ .ofList ext := by
      rw [← String.toList_inj, whole]
      simp
    refine ⟨.ofList front, .before (by simpa using plain), ?_⟩
    rw [encode_dotted] at visible ⊢
    refine stem_cut _ ?_ ?_ ?_
    · rw [dot_mem_encode, String.toList_ofList]
      exact plain
    · intro none
      simp [none, isHidden] at visible
    · intro up
      simp [up, isHidden] at visible
  · exact ⟨last, .whole dotted, stem_whole (mt dot_mem_encode.mp dotted)⟩

end Texts

section Inference

theorem names_of_modular (modular : p.Modular) :
    p.components = p.names.map .name ∧ ∃ name, p.fileName? = some name := by
  have whole : p.components = p.names.map .name := by
    have all := modular.named
    rw [names]
    generalize p.components = cs at all
    induction cs with
    | nil => rfl
    | cons c cs ih =>
      obtain ⟨⟨name, rfl⟩, rest⟩ := List.forall_mem_cons.mp all
      exact congrArg (Component.name name :: ·) (ih rest)
  refine ⟨whole, ?_⟩
  obtain ⟨name, own⟩ := modular.named _ (List.getLast_mem modular.filled)
  exact ⟨name, by rw [fileName?, List.getLast?_eq_some_getLast modular.filled, own]; rfl⟩

theorem modular_of_components (front : List Bytes) (last : Bytes)
    (whole : p.components = (front ++ [last]).map .name) (visible : isHidden last = false) :
    p.Modular := by
  refine ⟨?_, by simp [whole], ?_⟩
  · intro c mem
    rw [whole] at mem
    obtain ⟨name, _, rfl⟩ := List.mem_map.mp mem
    exact ⟨name, rfl⟩
  · intro name named
    rw [fileName?, whole, List.map_append, List.map_singleton, List.getLast?_concat] at named
    cases named
    exact visible

theorem inferred_of_modular (modular : (ofString text).Modular) :
    ∃ front last short, Inferred (ofString text) front last short := by
  obtain ⟨whole, name, named⟩ := names_of_modular modular
  have visible := modular.visible name named
  obtain ⟨front, names, inferred⟩ := names_withoutExtension named
  obtain ⟨parent, up, split⟩ := parent_of_fileName? named
  have texts : ∀ n ∈ front ++ [name], encode (lossy n) = n := fun n mem =>
    @encode_lossy_of_mem_names text n (names ▸ mem)
  obtain ⟨early, own⟩ := List.forall_mem_append.mp texts
  have own : encode (lossy name) = name := own name (List.mem_singleton.mpr rfl)
  have early : (front.map lossy).map (fun name => Component.name (encode name)) =
      front.map .name := by
    rw [List.map_map]
    exact List.map_congr_left fun n mem => congrArg Component.name (early n mem)
  obtain ⟨short, cut, shortened⟩ := stem_encode (lossy name) (own.symm ▸ visible)
  rw [own] at shortened
  have valid : IsName name := (mem_names (p := ofString text) (by simp [names])).2
  refine ⟨front.map lossy, lossy name, short, ?_, ?_, cut, ?_, ?_⟩
  · rw [whole, names, List.map_append, List.map_append, early]
    simp [own]
  · rw [whole, names, List.map_append] at split
    rw [up, Option.map_some, early]
    exact congrArg some (List.append_inj_left' split rfl).symm
  · rw [named, Option.map_some, shortened]
  · have shown : (nameOf? (stem name)).toList.map lossy = [short] := by
      rw [nameOf?_of_isName (isName_stem valid visible), shortened]
      simp [lossy_encode]
    rw [inferModuleName, normalize, moduleName, inferred, List.map_append, shown]

theorem slashFree_of_inferred {front : List String} {last short : String}
    (inferred : Inferred p front last short) : ∀ part ∈ front ++ [short], '/' ∉ part.toList := by
  have free : ∀ part ∈ front ++ [last], '/' ∉ part.toList := by
    intro part mem slashed
    have named : encode part ∈ p.names := by
      rw [names, inferred.components]
      exact List.mem_filterMap.mpr ⟨_, List.mem_map_of_mem mem, rfl⟩
    exact (mem_names named).2.slashFree (slash_mem_encode.mpr slashed)
  obtain ⟨early, own⟩ := List.forall_mem_append.mp free
  refine List.forall_mem_append.mpr ⟨early, ?_⟩
  rw [List.forall_mem_singleton] at own ⊢
  cases inferred.cut with
  | whole => exact own
  | before =>
    intro mem
    exact own (by simp [mem])

theorem splitOn_joined {parts : List String} (some : parts ≠ [])
    (free : ∀ part ∈ parts, '/' ∉ part.toList) :
    ("/".intercalate parts).toList.splitOn '/' = parts.map String.toList := by
  rw [String.toList_intercalate]
  refine List.splitOn_intercalate '/' ?_ (by simpa using some)
  simpa using free

theorem splitOn_moduleName {names : List Bytes} (valid : ∀ name ∈ names, IsName name)
    (some : names ≠ []) :
    (moduleName names).toList.splitOn '/' = names.map fun name => (lossy name).toList := by
  have free : ∀ part ∈ names.map lossy, '/' ∉ part.toList := by
    rw [List.forall_mem_map]
    intro name mem slashed
    exact (valid name mem).slashFree (mem_of_mem_lossy (by decide) (by decide) slashed)
  rw [moduleName, splitOn_joined (by simpa using some) free, List.map_map]
  rfl

theorem intercalate_injOn {parts parts' : List String} (some : parts ≠ []) (some' : parts' ≠ [])
    (free : ∀ part ∈ parts, '/' ∉ part.toList) (free' : ∀ part ∈ parts', '/' ∉ part.toList)
    (same : "/".intercalate parts = "/".intercalate parts') : parts = parts' := by
  refine List.map_injective_iff.mpr (fun _ _ => String.toList_injective) ?_
  rw [← splitOn_joined some free, same, splitOn_joined some' free']

/-- A module name is the names of the path between slashes, the last one cut before its last
dot; two paths have one module name just where they have one parent and one stem. -/
theorem module_name_tells_parent_and_stem {text text' : String}
    (modular : (ofString text).Modular) (modular' : (ofString text').Modular) :
    (∃ front last short, Inferred (ofString text) front last short) ∧
      ((ofString text).inferModuleName = (ofString text').inferModuleName ↔
        (ofString text).parent?.map components = (ofString text').parent?.map components ∧
          (ofString text).fileName?.map stem = (ofString text').fileName?.map stem) := by
  obtain ⟨front, last, short, inferred⟩ := inferred_of_modular modular
  obtain ⟨front', last', short', inferred'⟩ := inferred_of_modular modular'
  refine ⟨⟨front, last, short, inferred⟩, ?_⟩
  have names : (ofString text).inferModuleName = (ofString text').inferModuleName ↔
      front = front' ∧ short = short' := by
    rw [inferred.moduleName, inferred'.moduleName]
    constructor
    · intro same
      have parts := intercalate_injOn (by simp) (by simp) (slashFree_of_inferred inferred)
        (slashFree_of_inferred inferred') same
      obtain ⟨early, own⟩ := List.append_inj' parts rfl
      exact ⟨early, List.singleton_inj.mp own⟩
    · rintro ⟨rfl, rfl⟩
      rfl
  have written : Function.Injective fun name => Component.name (encode name) :=
    fun a b same => encode_injective (Component.name.inj same)
  rw [names, inferred.parent, inferred'.parent, inferred.stem, inferred'.stem,
    Option.some_inj, Option.some_inj, (List.map_injective_iff.mpr written).eq_iff,
    encode_injective.eq_iff]

theorem module_name_shared_by_js_and_ts :
    (ofString "lib.d//util.min.js/").Modular ∧ (ofString "lib.d/util.min.ts").Modular ∧
      (ofString "lib.d//util.min.js/").inferModuleName =
        (ofString "lib.d/util.min.ts").inferModuleName := by
  have js : (ofString "lib.d//util.min.js/").Modular :=
    modular_of_components [encode "lib.d"] (encode "util.min.js") (by decide) (by decide)
  have ts : (ofString "lib.d/util.min.ts").Modular :=
    modular_of_components [encode "lib.d"] (encode "util.min.ts") (by decide) (by decide)
  exact ⟨js, ts, (module_name_tells_parent_and_stem js ts).2.mpr ⟨by decide, by decide⟩⟩

end Inference

end ModuleTree.Path
