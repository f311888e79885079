import ModuleTree.Proofs.Path.Stem
import ModuleTree.Proofs.Walk.Visible
import ModuleTree.Walk.Discovery
/- Where a found file comes from. Its path is that of a base and, on it, the names it is relative
   by; the base is the root, or the directory around a root that is a file. Where nothing is
   reached in two ways, files with other paths are other files. -/
namespace ModuleTree

namespace Path

variable {p : Path} {name : Bytes} {front : List Bytes}

theorem components_of_parent (valid : IsName name) (names : p.segmentNames = front ++ [name]) :
    p.components = (base p true).components ++ [.name name] := by
  obtain ⟨parent, up, whole⟩ := parent_of_fileName? (fileName?_of_segmentNames valid names)
  have parent_ : base p true = parent := by simp [base, up]
  exact parent_ ▸ whole

def Plain (p : Path) : Prop := ∀ name ∈ p.segmentNames, IsName name

end Path

namespace FileSystem

/-- Nothing is reached in two ways. There are no links of either kind, and the roots are written
without dots and from one start. -/
structure Straight (fs : FileSystem) (roots : List Path) : Prop where
  linkless : ∀ id target, fs.node? id ≠ some (.link target)
  once : fs.NoHardLinks
  plain : ∀ root ∈ roots, root.Plain
  start : ∀ root ∈ roots, ∀ root' ∈ roots, root.isAbsolute = root'.isAbsolute

theorem components_of_sameFile {fs : FileSystem} {p q : Path} (tree : fs.Tree)
    (linkless : ∀ id target, fs.node? id ≠ some (.link target)) (plain : p.Plain)
    (plain' : q.Plain) (start : p.isAbsolute = q.isAbsolute) (same : fs.SameFile p q) :
    p.components = q.components := by
  obtain ⟨id, there, there'⟩ := same
  obtain ⟨left, leads⟩ := leadsTo_of_resolve there
  obtain ⟨left', leads'⟩ := leadsTo_of_resolve there'
  rw [FileSystem.start, start] at leads
  have linkFree (top : NodeId) : fs.LinkFree top := fun _ _ _ entry _ => linkless entry.2
  have names := descends_unique tree (descends_of_leads (linkFree _) plain leads)
    (descends_of_leads (linkFree _) plain' leads')
  rw [Path.components_eq, Path.components_eq, start, names]

def baseOf (fs : FileSystem) (root : Path) : Path := Path.base root (!fs.isDirectory root)

end FileSystem

namespace Tour
open FileSystem ModuleTree.Path

/-- A file is a root itself, or visible names lead to it from one. -/
inductive Arises (fs : FileSystem) (root : Path) : Found → Prop where
  | itself {id : NodeId} {content : ByteArray} {front : List Bytes} {name : Bytes}
      (there : fs.resolve root = .ok id) (file : fs.node? id = some (.file content))
      (named : root.segmentNames = front ++ [name]) (valid : IsName name) :
      Arises fs root ⟨root, ⟨join [name]⟩⟩
  | below {top : NodeId} {names : List Bytes} (there : fs.resolve root = .ok top)
      (isDirectory : fs.isDirectoryNode top) (further : names ≠ []) (shown : Shows fs top names) :
      Arises fs root ⟨root.below names, ⟨join names⟩⟩

variable {fs : FileSystem} {root : Path} {roots : List Path} {found : Found}

theorem arises_of_mem (sound : fs.Sound) (mem : found ∈ (ofRoot fs root).files) :
    Arises fs root found := by
  have covers := coversRoot_ofRoot sound root
  generalize ofRoot fs root = tour at covers mem
  cases covers with
  | stopped => cases mem
  | passed arrives =>
    obtain ⟨id, there, passes⟩ := enterRoot_passed arrives
    cases List.mem_singleton.mp (mem_files.mp mem)
    cases passes with
    | file file stripped =>
      obtain ⟨front, name, named, valid⟩ := name_of_file sound there file
      cases Except.ok.inj (stripped.symm.trans (relativeToRoot_self valid named))
      exact .itself there file named valid
  | entered arrives covers =>
    obtain ⟨opened, listed⟩ := enterRoot_inside arrives
    obtain ⟨entry, _, more, shown, rfl⟩ := covers.shown sound (.root opened)
      (fun e mem => mem_inOrder.mp (listed ▸ mem)) opened.resolved mem
    exact .below opened.resolved opened.isDirectory (List.cons_ne_nil _ _) shown

namespace Arises

theorem components (sound : fs.Sound) (arises : Arises fs root found) :
    ∃ names, names ≠ [] ∧ (fs.isDirectory root = false → names.length = 1) ∧
      found.relative = ⟨join names⟩ ∧
      found.path.components = (fs.baseOf root).components ++ names.map .name := by
  cases arises with
  | @itself id content front name there file named valid =>
    have plain : fs.isDirectory root = false := by simp [isDirectory, there, isDirectoryNode, file]
    refine ⟨[name], List.cons_ne_nil _ _, fun _ => rfl, rfl, ?_⟩
    rw [baseOf, plain]
    exact components_of_parent valid named
  | @below top names there isDirectory_ further shown =>
    have directory : fs.isDirectory root := by simpa [isDirectory, there] using isDirectory_
    have valid := shown.valid sound
    refine ⟨names, further, by simp [directory], rfl, ?_⟩
    rw [baseOf, directory]
    exact components_below (isAbsolute_below valid) valid (segmentNames_below valid)

theorem plain (sound : fs.Sound) (arises : Arises fs root found) (plain : root.Plain) :
    found.path.Plain ∧ found.path.isAbsolute = root.isAbsolute := by
  cases arises with
  | itself => exact ⟨plain, rfl⟩
  | below _ _ _ shown =>
    have valid := shown.valid sound
    refine ⟨?_, isAbsolute_below valid⟩
    unfold Plain
    rw [segmentNames_below valid]
    exact List.forall_mem_append.mpr ⟨plain, valid⟩

end Arises

theorem components_of_straight {root' : Path} {found' : Found} (sound : fs.Sound)
    (straight : fs.Straight roots) (held : root ∈ roots) (held' : root' ∈ roots)
    (arises : Arises fs root found) (arises' : Arises fs root' found')
    (same : fs.SameFile found.path found'.path) :
    found.path.components = found'.path.components := by
  obtain ⟨plain, start⟩ := arises.plain sound (straight.plain root held)
  obtain ⟨plain', start'⟩ := arises'.plain sound (straight.plain root' held')
  refine components_of_sameFile (sound.tree straight.once) straight.linkless plain plain' ?_ same
  rw [start, start', straight.start root held root' held']

theorem arises_of_mem_roots (sound : fs.Sound) (mem : found ∈ (ofRoots fs roots).files) :
    ∃ root ∈ roots, Arises fs root found := by
  obtain ⟨root, held, there⟩ := mem_ofRoots mem
  exact ⟨root, held, arises_of_mem sound there⟩

end Tour

end ModuleTree
