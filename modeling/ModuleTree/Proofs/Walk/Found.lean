import ModuleTree.Proofs.Walk.Trail
/- What a tour finds. Each file that is found is a file by its path, and is relative to its root
   by proper names. -/
namespace ModuleTree

/-- A file as it was found: proper names lead to it from its root, and its path leads to it
wherever it is not too long. -/
structure Found.Genuine (fs : FileSystem) (found : Found) : Prop where
  relative : ∃ names, names ≠ [] ∧ (∀ name ∈ names, Path.IsName name) ∧
    found.relative = ⟨Path.join names⟩
  file : ∃ id content, fs.node? id = some (.file content) ∧
    (found.path.Usable → fs.resolve found.path = .ok id)

namespace Tour
open FileSystem ModuleTree.Path

variable {fs : FileSystem} {root : Path} {roots : List Path} {trail : Trail}
  {names : List Bytes} {id child : NodeId} {name : Bytes} {found : Found}

theorem mem_files {t : Tour} : found ∈ t.files ↔ .file found ∈ t.visits := by
  unfold files
  rw [List.mem_filterMap]
  constructor
  · rintro ⟨visit, mem, same⟩
    cases visit with
    | file seen =>
      cases same
      exact mem
    | _ => cases same
  · intro mem
    exact ⟨.file found, mem, rfl⟩

theorem mem_files_append {a b : Tour} (mem : found ∈ (a ++ b).files) :
    found ∈ a.files ∨ found ∈ b.files := by
  rw [mem_files] at mem ⊢
  rw [mem_files]
  exact mem_visits_append mem

theorem Stands.relative (sound : fs.Sound) (stands : Stands fs root names trail id)
    (entry : (name, child) ∈ fs.entries id) :
    relativeToRoot root trail.isEmpty (root.below (names ++ [name])) =
      .ok ⟨join (names ++ [name])⟩ := by
  have here := sound.named id _ entry
  have all : ∀ n ∈ names ++ [name], IsName n :=
    List.forall_mem_append.mpr ⟨stands.valid sound, by simpa using here⟩
  rw [stands.nonempty]
  exact relativeToRoot_below stands.root_some (by simp) all

theorem file_of_arrives (sound : fs.Sound) (stands : Stands fs root names trail id)
    (entry : (name, child) ∈ fs.entries id)
    (arrives : arrive fs root trail (isHidden name) (root.below (names ++ [name])) child =
      .ok (.pass (.file found))) :
    isHidden name = false ∧
      found = ⟨root.below (names ++ [name]), ⟨join (names ++ [name])⟩⟩ ∧
      ∃ next content, identify fs root trail (root.below (names ++ [name])) child = .ok next ∧
        fs.node? next = some (.file content) := by
  obtain ⟨next, identified, passes⟩ := arrive_passed arrives
  generalize isHidden name = hidden at passes
  cases passes with
  | file file stripped =>
    rw [stands.relative sound entry] at stripped
    cases Except.ok.inj stripped
    exact ⟨rfl, rfl, next, _, identified, file⟩

theorem genuine_of_entry (sound : fs.Sound) (stands : Stands fs root names trail id)
    (entry : (name, child) ∈ fs.entries id)
    (arrives : arrive fs root trail (isHidden name) (root.below (names ++ [name])) child =
      .ok (.pass (.file found))) : found.Genuine fs := by
  have all : ∀ n ∈ names ++ [name], IsName n :=
    List.forall_mem_append.mpr ⟨stands.valid sound, by simpa using sound.named id _ entry⟩
  obtain ⟨_, rfl, next, content, identified, file⟩ := file_of_arrives sound stands entry arrives
  refine ⟨⟨names ++ [name], by simp, all, rfl⟩, next, content, file, ?_⟩
  intro usable
  rcases identify_ok identified with ⟨_, resolved, _⟩ | ⟨plain, same⟩
  · exact resolved
  · subst same
    rw [below_concat] at usable ⊢
    exact resolve_child sound stands.opened entry plain usable

theorem ofRoot_genuine (sound : fs.Sound) : ∀ found ∈ (ofRoot fs root).files, found.Genuine fs := by
  intro found mem
  rw [mem_files] at mem
  have covers := coversRoot_ofRoot sound root
  generalize ofRoot fs root = tour at covers mem
  cases covers with
  | stopped => cases mem
  | passed arrives =>
    obtain ⟨id, there, passes⟩ := enterRoot_passed arrives
    cases List.mem_singleton.mp mem
    cases passes with
    | file file stripped =>
      obtain ⟨front, name, names, valid⟩ := name_of_file sound there file
      have own := relativeToRoot_self valid names
      refine ⟨⟨[name], by simp, by simpa using valid, ?_⟩, id, _, file, fun _ => there⟩
      exact Except.ok.inj (stripped.symm.trans own)
  | entered arrives covers =>
    obtain ⟨opened, listed⟩ := enterRoot_inside arrives
    obtain ⟨visits, _⟩ := covers.comesTo sound (.root opened) fun e mem =>
      mem_inOrder.mp (listed ▸ mem)
    obtain ⟨stands, entry, arrives, _⟩ := visits _ mem
    exact genuine_of_entry sound stands entry arrives

theorem mem_ofRoots (mem : found ∈ (ofRoots fs roots).files) :
    ∃ root ∈ roots, found ∈ (ofRoot fs root).files := by
  induction roots with
  | nil => cases mem
  | cons root roots ih =>
    rcases mem_files_append mem with first | rest
    · cases first
    · rcases mem_files_append rest with here | later
      · exact ⟨root, List.mem_cons_self, here⟩
      · obtain ⟨root', held, there⟩ := ih later
        exact ⟨root', List.mem_cons_of_mem _ held, there⟩

theorem ofRoots_genuine (sound : fs.Sound) (roots : List Path) :
    ∀ found ∈ (ofRoots fs roots).files, found.Genuine fs := by
  intro found mem
  obtain ⟨root, _, there⟩ := mem_ofRoots mem
  exact ofRoot_genuine sound found there

end Tour

end ModuleTree
