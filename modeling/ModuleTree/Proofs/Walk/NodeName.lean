import Mathlib
import ModuleTree.Proofs.Path.ModuleName
import ModuleTree.Proofs.Walk.Discovered
import ModuleTree.Proofs.Walk.Relative
/- Names of discovered modules. A name that is inferred has a part for each name of the file, but
   for a file that is a root itself and of whose name only dots are left without the extension;
   such a module has the empty name. -/
namespace ModuleTree

namespace Path
open Text

/-- A module name of one part for each component of the path, none of them empty. -/
structure UsableName (name : String) (p : Path) : Prop where
  filled : name ≠ ""
  each : ∀ part ∈ name.toList.splitOn '/', part ≠ []
  count : (name.toList.splitOn '/').length = p.components.length

inductive Vanishing : Bytes → Prop where
  | one {ext : Bytes} (plain : dot ∉ ext) (some : ext ≠ []) : Vanishing (dot :: dot :: ext)
  | two {ext : Bytes} (plain : dot ∉ ext) : Vanishing (dot :: dot :: dot :: ext)

variable {p : Path} {name : Bytes} {names : List Bytes}

theorem usableName_of_names (some : names ≠ []) (valid : ∀ name ∈ names, IsName name)
    (count : p.components.length = names.length) : UsableName (moduleName names) p := by
  have each : ∀ part ∈ (moduleName names).toList.splitOn '/', part ≠ [] := by
    rw [splitOn_moduleName valid some, List.forall_mem_map]
    exact fun name mem => lossy_ne_empty (valid name mem).nonempty
  refine ⟨?_, each, by simp [splitOn_moduleName valid some, count]⟩
  intro empty
  rw [empty] at each
  exact each [] (by simp) rfl

theorem vanishing_of_stem (valid : IsName name) (gone : ¬ IsName (stem name)) :
    Vanishing name := by
  have dots : stem name = [dot] ∨ stem name = [dot, dot] := by
    by_contra other
    rw [not_or] at other
    have free : slash ∉ stem name := fun mem => valid.slashFree ((prefix_of_stem name).subset mem)
    exact gone ⟨stem_ne_nil valid.nonempty, free, other.1, other.2⟩
  rcases stem_cases name with whole | ⟨ext, plain, _, cut⟩
  · rw [whole] at dots
    exact absurd dots (not_or.mpr ⟨valid.notHere, valid.notUp⟩)
  · rcases dots with one | two
    · rw [one] at cut
      rw [cut]
      refine .one plain ?_
      rintro rfl
      exact valid.notUp cut
    · rw [two] at cut
      exact cut ▸ .two plain

theorem stem_of_vanishing (vanishing : Vanishing name) : nameOf? (stem name) = none := by
  cases vanishing with
  | @one ext plain some =>
    have cut : stem (dot :: dot :: ext) = [dot] :=
      stem_cut [dot] plain (by decide) (by simpa using some)
    rw [cut]
    rfl
  | @two ext plain =>
    have cut : stem (dot :: dot :: dot :: ext) = [dot, dot] :=
      stem_cut [dot, dot] plain (by decide) (by simp)
    rw [cut]
    rfl

theorem inferModuleName_of_components (front : List Bytes)
    (whole : p.components = (front ++ [name]).map .name) :
    p.inferModuleName = moduleName (front ++ (nameOf? (stem name)).toList) := by
  have named : p.fileName? = some name := by
    rw [fileName?, whole, List.map_append, List.map_singleton, List.getLast?_concat]
    rfl
  obtain ⟨front', names, inferred⟩ := names_withoutExtension named
  rw [Path.names, whole, List.filterMap_map] at names
  obtain rfl := List.append_inj_left' (List.filterMap_some.symm.trans names) rfl
  rw [inferModuleName, normalize, inferred]

theorem inferModuleName_of_vanishing (whole : p.components = [.name name])
    (vanishing : Vanishing name) : p.inferModuleName = "" := by
  rw [inferModuleName_of_components [] whole, stem_of_vanishing vanishing]
  rfl

theorem usableName_of_components (front : List Bytes)
    (whole : p.components = (front ++ [name]).map .name) (valid : ∀ n ∈ front, IsName n)
    (left : IsName (stem name)) : UsableName p.inferModuleName p := by
  rw [inferModuleName_of_components front whole, nameOf?_of_isName left]
  refine usableName_of_names (by simp) ?_ (by simp [whole])
  exact List.forall_mem_append.mpr ⟨valid, by simpa using left⟩

end Path

namespace Discovery
open FileSystem Tour ModuleTree.Path

/-- A file that is a root itself and of whose name only dots are left. -/
structure Nameless (roots : List Path) (job : Job) : Prop where
  isRoot : job.input ∈ roots
  vanishing : ∃ name, job.relative.components = [.name name] ∧ Vanishing name

variable {fs : FileSystem} {roots : List Path} {destination : Path} {settings : Settings}
  {jobs : List Job}

theorem nodeName_ofFound (unnamed : settings.moduleName = none) (found : Found) :
    (Job.ofFound destination settings found).nodeName = found.relative.inferModuleName := by
  unfold Job.ofFound Job.moduleNameFor
  rw [unnamed]
  cases settings.inferName <;> rfl

theorem usableName_of_arises {root : Path} {found : Found} (sound : fs.Sound)
    (arises : Arises fs root found)
    (lasting : ∀ name, found.path = root → found.relative.components = [.name name] →
      ¬ Vanishing name) : UsableName found.relative.inferModuleName found.relative := by
  cases arises with
  | @itself id content front name there file named valid =>
    have whole : (⟨join [name]⟩ : Path).components = [.name name] :=
      components_join (by simpa using valid)
    refine usableName_of_components [] whole (by simp) ?_
    by_contra gone
    refine lasting name rfl whole (vanishing_of_stem valid gone)
  | @below top names there isDirectory further shown =>
    have valid := shown.valid sound
    have visible := shown.visible
    obtain ⟨front, name, rfl⟩ := (List.eq_nil_or_concat' names).resolve_left further
    obtain ⟨early, own⟩ := List.forall_mem_append.mp valid
    exact usableName_of_components front (components_join valid) early
      (isName_stem (own name (by simp)) (visible name (by simp)))

/-- A discovered module has a usable name but for one that is a root itself and of whose name
only dots are left without the extension; the name of such a module is empty. -/
theorem node_names_usable_but_of_dots (sound : fs.Sound) (unnamed : settings.moduleName = none)
    (ok : Discovery.jobs fs roots destination settings = .ok jobs) :
    ∀ job ∈ jobs, (UsableName job.nodeName job.relative ↔ ¬ Nameless roots job) ∧
      (Nameless roots job → job.nodeName = "") := by
  intro job mem
  obtain ⟨found, there, rfl⟩ := found_of_job ok mem
  obtain ⟨root, held, arises⟩ := arises_of_mem_roots sound there
  have empty (nameless : Nameless roots (.ofFound destination settings found)) :
      (Job.ofFound destination settings found).nodeName = "" := by
    obtain ⟨name, whole, vanishing⟩ := nameless.vanishing
    rw [nodeName_ofFound unnamed]
    exact inferModuleName_of_vanishing whole vanishing
  refine ⟨⟨fun usable nameless => usable.filled (empty nameless), fun named => ?_⟩, empty⟩
  rw [nodeName_ofFound unnamed]
  refine usableName_of_arises sound arises fun name isRoot whole vanishing => ?_
  exact named ⟨(congrArg (· ∈ roots) isRoot).mpr held, name, whole, vanishing⟩

def dottedModules : FileSystem where
  nodes := #[.directory 0 [(Text.encode "..js", 1), (Text.encode "lib", 2)], .file "x".toUTF8,
    .directory 0 [(Text.encode "...", 3), (Text.encode "a.min.js", 4)], .file "y".toUTF8,
    .file "z".toUTF8]
  root := 0
  home := 0

theorem dottedModules_sound : dottedModules.Sound :=
  sound_of_numbered (by decide) (by decide) (by decide +kernel)

def dottedJobs : List Job :=
  [⟨.ofString "lib/a.min.js", .ofString "a.min.js", .ofString "out/a.min.js", none, "a.min"⟩,
    ⟨.ofString "..js", .ofString "..js", .ofString "out/..js", none, ""⟩]

def dottedModuleRoots : List Path := [.ofString "lib", .ofString "..js"]

theorem node_names_of_dotted_modules :
    dottedModules.Sound ∧ ({} : Settings).moduleName = none ∧
      Discovery.jobs dottedModules dottedModuleRoots (.ofString "out") {} = .ok dottedJobs ∧
      ∀ job ∈ dottedJobs, (UsableName job.nodeName job.relative ↔
          ¬ Nameless dottedModuleRoots job) ∧
        (Nameless dottedModuleRoots job → job.nodeName = "") := by
  have ok : Discovery.jobs dottedModules dottedModuleRoots (.ofString "out") {} =
      .ok dottedJobs := by cbv
  exact ⟨dottedModules_sound, rfl, ok, node_names_usable_but_of_dots dottedModules_sound rfl ok⟩

/-- The one module of this run has no name. -/
theorem module_of_dots_has_no_name :
    dottedModules.Sound ∧
      Discovery.jobs dottedModules [.ofString "..js"] (.ofString "out") {} =
        .ok [⟨.ofString "..js", .ofString "..js", .ofString "out/..js", none, ""⟩] ∧
      ¬ UsableName "" (.ofString "..js") := by
  exact ⟨dottedModules_sound, by cbv, fun usable => usable.filled rfl⟩

end Discovery

end ModuleTree
