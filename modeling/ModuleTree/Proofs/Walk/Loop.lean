import Mathlib
import ModuleTree.Proofs.Walk.Visible
/- Directories that come again on the way to a file. A walk stops at the first link that leads
   back to a directory around it. A directory that comes again by its own name, below a link, is
   walked again; but then a link below it leads back, so that the walk fails in the end. -/
namespace ModuleTree

namespace FileSystem

variable {fs : FileSystem} {top id : NodeId} {names front : List Bytes} {name : Bytes}

/-- At this name stands a link, to a directory that the way to it has come through. -/
inductive LeadsBack (fs : FileSystem) (top : NodeId) (names : List Bytes) (name : Bytes) :
    Prop where
  | intro {id child next : NodeId} {target : Path} {early : List Bytes}
      (way : fs.Reaches top names id) (entry : (name, child) ∈ fs.entries id)
      (link : fs.node? child = some (.link target)) (denotes : fs.Denotes id child next)
      (isDirectory : fs.isDirectoryNode next) (around : early <+: names)
      (back : fs.Reaches top early next) : LeadsBack fs top names name

def LeadsOn (fs : FileSystem) (top : NodeId) (names : List Bytes) : Prop :=
  ∀ front name, front ++ [name] <+: names → ¬ fs.LeadsBack top front name

def NeverTwice (fs : FileSystem) (top : NodeId) (names : List Bytes) : Prop :=
  ∀ front front' id, front <+: names → front' <+: names → fs.Reaches top front id →
    fs.Reaches top front' id → front = front'

theorem neverTwice_of_append {rest : List Bytes} (never : fs.NeverTwice top (names ++ rest)) :
    fs.NeverTwice top names := fun front front' id early early' =>
  never front front' id (early.trans (List.prefix_append _ _))
    (early'.trans (List.prefix_append _ _))

theorem leadsOn_nil : fs.LeadsOn top [] := by
  intro front name early
  simp at early

theorem leadsOn_concat (before : fs.LeadsOn top names) (last : ¬ fs.LeadsBack top names name) :
    fs.LeadsOn top (names ++ [name]) := by
  intro front n early
  rcases List.prefix_concat_iff.mp early with whole | shorter
  · obtain ⟨rfl, same⟩ := List.append_inj' whole rfl
    cases same
    exact last
  · exact before front n shorter

theorem reaches_replicate (around : fs.Reaches id names id) (n : Nat) :
    fs.Reaches id (List.replicate n names).flatten id := by
  induction n with
  | zero => exact .here
  | succ n ih =>
    rw [List.replicate_succ, List.flatten_cons]
    exact reaches_append.mpr ⟨id, around, ih⟩

end FileSystem

namespace Tour
open FileSystem ModuleTree.Path

variable {fs : FileSystem} {root path ancestor : Path} {trail : Trail} {names : List Bytes}
  {id child next top : NodeId} {name : Bytes} {found : Found}

section Links

theorem not_leadsBack_of_identify (sound : fs.Sound) (stands : Stands fs root names trail id)
    (entry : (name, child) ∈ fs.entries id)
    (identified : identify fs root trail (root.below (names ++ [name])) child = .ok next)
    (top_ : fs.resolve root = .ok top) : ¬ fs.LeadsBack top names name := by
  rintro ⟨way, entry', link, denotes, isDirectory, around, back⟩
  cases reaches_unique sound way (stands.reaches sound top_)
  cases child_unique sound entry entry'
  rcases identify_ok identified with ⟨_, _, off⟩ | ⟨plain, _⟩
  · rw [below_concat] at identified
    cases denotes_unique denotes (denotes_of_identify sound stands.opened entry identified)
    obtain ⟨early, there, stood, mem⟩ := stands.mem_of_prefix around
    cases reaches_unique sound back (stood.reaches sound top_)
    have other := List.find?_eq_none.mp (off isDirectory) _ mem
    simp at other
  · exact plain _ link

theorem Stands.leadsOn (sound : fs.Sound) (stands : Stands fs root names trail id)
    (top_ : fs.resolve root = .ok top) : fs.LeadsOn top names := by
  induction stands with
  | root => exact leadsOn_nil
  | child above entry _ identified _ ih =>
    exact leadsOn_concat ih (not_leadsBack_of_identify sound above entry identified top_)

end Links

/-- How a file was found: along these names, and by no link that leads back. -/
structure FoundAlong (fs : FileSystem) (root : Path) (found : Found) (top : NodeId)
    (names : List Bytes) : Prop where
  there : fs.resolve root = .ok top
  path : found.path = root.below names
  shown : Shows fs top names
  leadsOn : fs.LeadsOn top names

/-- A loop closes at a link to the directory at `ancestor`, and no link before it leads back. -/
structure Closes (fs : FileSystem) (root path ancestor : Path) : Prop where
  same : ∃ id, fs.isDirectoryNode id ∧ fs.resolve path = .ok id ∧ fs.resolve ancestor = .ok id
  within : ∃ more, more ≠ [] ∧ path.components = ancestor.components ++ more
  first : ∃ top names name, fs.resolve root = .ok top ∧ path = root.below (names ++ [name]) ∧
    fs.LeadsBack top names name ∧ fs.LeadsOn top names

theorem foundAlong_of_mem (sound : fs.Sound) (mem : found ∈ (ofRoot fs root).files) :
    ∃ top names, FoundAlong fs root found top names := by
  have covers := coversRoot_ofRoot sound root
  rw [mem_files] at mem
  generalize ofRoot fs root = tour at covers mem
  cases covers with
  | stopped => cases mem
  | passed arrives =>
    obtain ⟨id, there, passes⟩ := enterRoot_passed arrives
    cases List.mem_singleton.mp mem
    cases passes with
    | file file =>
      exact ⟨id, [], there, rfl, ⟨by simp, id, _, .here, file⟩, leadsOn_nil⟩
  | @entered _ top entries arrives covers =>
    obtain ⟨opened, listed⟩ := enterRoot_inside arrives
    obtain ⟨stands, entry, arrives, _⟩ := (covers.comesTo sound (.root opened) fun e mem =>
      mem_inOrder.mp (listed ▸ mem)).1 _ mem
    obtain ⟨next, identified, _⟩ := arrive_passed arrives
    obtain ⟨shown, rfl⟩ := shows_of_arrives sound stands entry arrives opened.resolved
    exact ⟨top, _, opened.resolved, rfl, shown,
      leadsOn_concat (stands.leadsOn sound opened.resolved)
        (not_leadsBack_of_identify sound stands entry identified opened.resolved)⟩

theorem closes_of_failure (sound : fs.Sound)
    (failure : (ofRoot fs root).failure = some ⟨path, .loop ancestor⟩) :
    Closes fs root path ancestor := by
  have covers := coversRoot_ofRoot sound root
  generalize ofRoot fs root = tour at covers failure
  cases covers with
  | stopped arrives =>
    cases failure
    exact absurd arrives enterRoot_ne_loop
  | passed => cases failure
  | @entered _ top entries arrives covers =>
    obtain ⟨opened, listed⟩ := enterRoot_inside arrives
    cases (covers.comesTo sound (.root opened) fun e mem =>
      mem_inOrder.mp (listed ▸ mem)).2 _ failure with
    | @intro later _ id child name stands entry arrives =>
      obtain ⟨rfl, ⟨target, link⟩, next, resolved, isDirectory, on⟩ :=
        identify_loop (arrive_loop arrives)
      obtain ⟨front, early, around, rfl, stood⟩ := stands.of_mem (List.mem_of_find?_eq_some on)
      rw [List.nil_append] at *
      have way := stands.reaches sound opened.resolved
      have back := stood.reaches sound opened.resolved
      have denotes : fs.Denotes id child next := by
        rw [below_concat] at resolved
        exact denotes_of_resolve sound stands.opened entry resolved
      refine ⟨⟨next, isDirectory, resolved, stood.opened.resolved⟩, ?_, top, later, name,
        opened.resolved, rfl, ⟨way, entry, link, denotes, isDirectory, around, back⟩,
        stands.leadsOn sound opened.resolved⟩
      obtain ⟨rest, rfl⟩ := around
      have valid := List.forall_mem_append.mp (stands.valid sound)
      have further : ∀ n ∈ rest ++ [name], IsName n :=
        List.forall_mem_append.mpr ⟨valid.2, by simpa using sound.named _ _ entry⟩
      refine ⟨(rest ++ [name]).map .name, by simp, ?_⟩
      rw [List.append_assoc, below_append]
      exact components_below (isAbsolute_below further) further (segmentNames_below further)

section Again

variable {front more rest : List Bytes} {n : Nat}

theorem none_of_again (sound : fs.Sound) (bounded : ∀ names, Shows fs top names → names.length ≤ n)
    (shown : Shows fs top (front ++ more ++ rest)) (way : fs.Reaches top front id)
    (again : fs.Reaches top (front ++ more) id) : more = [] := by
  by_contra some
  obtain ⟨middle, first, around⟩ := reaches_append.mp again
  cases reaches_unique sound way first
  obtain ⟨file, content, whole, isFile⟩ := shown.file
  obtain ⟨middle, first, onward⟩ := reaches_append.mp whole
  cases reaches_unique sound again first
  have longer : Shows fs top (front ++ ((List.replicate (n + 1) more).flatten ++ rest)) := by
    refine ⟨fun name mem => shown.visible name ?_, file, content, ?_, isFile⟩
    · simp only [List.mem_append, List.mem_flatten, List.mem_replicate] at mem ⊢
      rcases mem with early | ⟨_, ⟨_, rfl⟩, inner⟩ | late
      · exact .inl (.inl early)
      · exact .inl (.inr inner)
      · exact .inr late
    · exact reaches_append.mpr
        ⟨id, way, reaches_append.mpr ⟨id, reaches_replicate around (n + 1), onward⟩⟩
  have long := bounded _ longer
  have positive := List.length_pos_of_ne_nil some
  have times : n + 1 ≤ (n + 1) * more.length := Nat.le_mul_of_pos_right _ positive
  simp only [List.length_append, List.length_flatten, List.map_replicate,
    List.sum_replicate_nat] at long
  omega

theorem neverTwice_of_bounded (sound : fs.Sound)
    (bounded : ∀ names, Shows fs top names → names.length ≤ n) (shown : Shows fs top names) :
    fs.NeverTwice top names := by
  intro front front' id early early' way way'
  rcases List.prefix_or_prefix_of_prefix early early' with ⟨more, rfl⟩ | ⟨more, rfl⟩
  · obtain ⟨rest, rfl⟩ := early'
    rw [none_of_again sound bounded shown way way', List.append_nil]
  · obtain ⟨rest, rfl⟩ := early
    rw [none_of_again sound bounded shown way' way, List.append_nil]

theorem Holds.bounded (sound : fs.Sound) {files : List Found} (holds : Holds fs root files)
    (there : fs.resolve root = .ok top) : ∃ n, ∀ names, Shows fs top names → names.length ≤ n := by
  have of_plain (plain : fs.isDirectoryNode top = false) :
      ∃ n, ∀ names, Shows fs top names → names.length ≤ n := by
    refine ⟨0, fun names shown => ?_⟩
    obtain ⟨file, content, way, _⟩ := shown.file
    simp [(reaches_from_plain plain way).1]
  cases holds with
  | file resolved file =>
    cases resolved.symm.trans there
    exact of_plain (by simp [isDirectoryNode, file])
  | directory resolved _ exactly =>
    cases resolved.symm.trans there
    refine ⟨(files.map fun found => found.relative.names.length).sum, fun names shown => ?_⟩
    have mem := (exactly _).mpr ⟨names, shown, rfl⟩
    have counted := List.mem_map_of_mem (f := fun found : Found => found.relative.names.length) mem
    rw [names_join (shown.valid sound)] at counted
    exact List.le_sum_of_mem counted
  | other resolved plain =>
    cases resolved.symm.trans there
    exact of_plain plain

end Again

end Tour

namespace Walk
open FileSystem Tour

variable {fs : FileSystem} {roots : List Path} {items : List Item}

/-- Files are found by ways on which no link leads back, and if the walk gives no error, by ways
on which nothing comes twice. A loop is an error at the first link that leads back. -/
theorem loops_close_at_links (sound : fs.Sound) (gives : Gives fs (.ofRoots roots) items) :
    (∀ found, .ok found ∈ items → ∃ root ∈ roots, ∃ top names,
      FoundAlong fs root found top names ∧
        ((∀ e, .error e ∉ items) → fs.NeverTwice top names)) ∧
    ∀ path ancestor, .error ⟨path, .loop ancestor⟩ ∈ items →
      ∃ root ∈ roots, Closes fs root path ancestor := by
  cases gives_unique gives (gives_items sound roots)
  refine ⟨fun found mem => ?_, fun path ancestor mem => ?_⟩
  · obtain ⟨root, held, there⟩ := mem_ofRoots (ok_mem_items.mp mem)
    obtain ⟨top, names, along⟩ := foundAlong_of_mem sound there
    refine ⟨root, held, top, names, along, fun well => ?_⟩
    have unfailing := unfailing_ofRoots (failure_eq_none.mpr well) root held
    obtain ⟨n, bounded⟩ := (holds_of_unfailing sound unfailing).bounded sound along.there
    exact neverTwice_of_bounded sound bounded along.shown
  · obtain ⟨root, held, failure⟩ := failure_ofRoots (error_mem_items.mp mem)
    exact ⟨root, held, closes_of_failure sound failure⟩

def leadingOut : FileSystem where
  nodes := #[
    .directory 0 [(Text.encode "a", 1)],
    .directory 0 [(Text.encode "b", 2)],
    .directory 1 [(Text.encode "f.js", 3), (Text.encode "l", 4)],
    .file "x".toUTF8,
    .link (.ofString "../..")]
  root := 0
  home := 0

def leadingOutItems : List Item :=
  [.ok ⟨.ofString "a/b/f.js", .ofString "f.js"⟩,
    .ok ⟨.ofString "a/b/l/a/b/f.js", .ofString "l/a/b/f.js"⟩,
    .error ⟨.ofString "a/b/l/a/b/l", .loop (.ofString "a/b/l")⟩]

def outAndBack : List Bytes := [Text.encode "l", Text.encode "a", Text.encode "b"]

theorem leadingOut_sound : leadingOut.Sound :=
  FileSystem.sound_of_numbered (by decide) (by decide) (by decide +kernel)

theorem leadingOut_gives : Gives leadingOut (.ofRoots [.ofString "a/b"]) leadingOutItems := by
  have tour : (Tour.ofRoots leadingOut [.ofString "a/b"]).items = leadingOutItems := by cbv
  exact tour ▸ gives_items leadingOut_sound _

/-- The second file and the path of the error have come to the root again before. -/
theorem root_twice_before_loop :
    leadingOut.Sound ∧ Gives leadingOut (.ofRoots [.ofString "a/b"]) leadingOutItems ∧
      leadingOut.resolve (.ofString "a/b") = .ok 2 ∧ ¬ leadingOut.NeverTwice 2 outAndBack ∧
      (∃ found, .ok found ∈ leadingOutItems ∧
        found.path = Path.below (.ofString "a/b") (outAndBack ++ [Text.encode "f.js"]) ∧
        ¬ leadingOut.NeverTwice 2 (outAndBack ++ [Text.encode "f.js"])) ∧
      ∃ path ancestor, .error ⟨path, .loop ancestor⟩ ∈ leadingOutItems ∧
        path = Path.below (.ofString "a/b") (outAndBack ++ [Text.encode "l"]) := by
  have root : leadingOut.resolve (.ofString "a/b") = .ok 2 := by cbv
  have valid : ∀ name ∈ outAndBack, Path.IsName name := by decide +kernel
  have again : leadingOut.Reaches 2 outAndBack 2 := reaches_of_resolve valid root (by cbv)
  have twice : ¬ leadingOut.NeverTwice 2 outAndBack := by
    intro never
    have same := never [] outAndBack 2 List.nil_prefix List.prefix_rfl .here again
    cases same
  exact ⟨leadingOut_sound, leadingOut_gives, root, twice,
    ⟨_, .tail _ (.head _), rfl, fun never => twice (neverTwice_of_append never)⟩,
    _, _, .tail _ (.tail _ (.head _)), rfl⟩

theorem leadingOut_loop_closes_at_link :
    leadingOut.Sound ∧ Gives leadingOut (.ofRoots [.ofString "a/b"]) leadingOutItems ∧
      (∀ found, .ok found ∈ leadingOutItems → ∃ root ∈ [Path.ofString "a/b"], ∃ top names,
        FoundAlong leadingOut root found top names ∧
          ((∀ e, .error e ∉ leadingOutItems) → leadingOut.NeverTwice top names)) ∧
      Closes leadingOut (.ofString "a/b") (.ofString "a/b/l/a/b/l") (.ofString "a/b/l") := by
  obtain ⟨files, loops⟩ := loops_close_at_links leadingOut_sound leadingOut_gives
  obtain ⟨root, held, closes⟩ := loops _ _ (.tail _ (.tail _ (.head _)))
  cases List.mem_singleton.mp held
  exact ⟨leadingOut_sound, leadingOut_gives, files, closes⟩

end Walk

end ModuleTree
