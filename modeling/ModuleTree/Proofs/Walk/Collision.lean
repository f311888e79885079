import Mathlib
import ModuleTree.Proofs.FileSystem.Alike
import ModuleTree.Proofs.Walk.FirstOfEach
import ModuleTree.Proofs.Walk.RootSet
import ModuleTree.Proofs.Walk.Relative
/- Two files that collide. They are told apart by their paths alone: where nothing is reached in
   two ways these are two files, but a directory given as two roots with other components collides
   with itself. -/
namespace ModuleTree

namespace Tour
open FileSystem ModuleTree.Path

variable {fs : FileSystem} {root : Path} {roots : List Path}

theorem mem_of_shows {top : NodeId} {names : List Bytes} (sound : fs.Sound)
    (well : (ofRoot fs root).failure = none) (there : fs.resolve root = .ok top)
    (isDirectory : fs.isDirectoryNode top) (shown : Shows fs top names) :
    ⟨root.append ⟨join names⟩, ⟨join names⟩⟩ ∈ (ofRoot fs root).files := by
  have holds := holds_of_unfailing sound well
  generalize (ofRoot fs root).files = files at holds
  cases holds with
  | file here file =>
    cases there.symm.trans here
    simp [isDirectoryNode, file] at isDirectory
  | directory here _ exactly =>
    cases there.symm.trans here
    exact (exactly _).mpr ⟨names, shown, rfl⟩
  | other here notDirectory =>
    cases there.symm.trans here
    exact absurd isDirectory (by simp [notDirectory])

theorem sameFile_of_same_directory {root' : Path} {top : NodeId} {found found' : Found}
    (sound : fs.Sound) (there : fs.resolve root = .ok top) (there' : fs.resolve root' = .ok top)
    (isDirectory : fs.isDirectoryNode top) (arises : Arises fs root found)
    (arises' : Arises fs root' found') (same : found.relative = found'.relative)
    (file : ∃ id, fs.resolve found.path = .ok id) (file' : ∃ id, fs.resolve found'.path = .ok id) :
    fs.SameFile found.path found'.path := by
  have not_file {content : ByteArray} : fs.node? top ≠ some (.file content) := by
    intro file
    simp [isDirectoryNode, file] at isDirectory
  cases arises with
  | itself here file_ =>
    cases there.symm.trans here
    exact absurd file_ not_file
  | @below top names here _ _ shown =>
    cases arises' with
    | itself here' file_ =>
      cases there'.symm.trans here'
      exact absurd file_ not_file
    | @below top' names' here' _ _ shown' =>
      cases there.symm.trans here
      cases there'.symm.trans here'
      have valid := shown.valid sound
      have valid' := shown'.valid sound
      have names_ : names = names' := by
        have := congrArg Path.names same
        rwa [names_join valid, names_join valid'] at this
      subst names_
      obtain ⟨id, resolved⟩ := file
      obtain ⟨id', resolved'⟩ := file'
      have one := reaches_unique sound (reaches_of_resolve valid here resolved)
        (reaches_of_resolve valid here' resolved')
      exact ⟨id, resolved, one ▸ resolved'⟩

end Tour

namespace Discovery
open FileSystem Tour

variable {fs : FileSystem} {roots : List Path} {destination path first output : Path}
  {settings : Settings}

theorem files_of_collision (sound : fs.Sound)
    (collides : Discovery.jobs fs roots destination settings =
      .error ⟨path, .outputCollision first output⟩) :
    ∃ found ∈ (ofRoots fs roots).files, ∃ found' ∈ (ofRoots fs roots).files,
      found.path = first ∧ found'.path = path ∧ found.relative = found'.relative ∧
        first.components ≠ path.components := by
  have outcome := jobs_outcome fs roots destination settings
  rw [collides] at outcome
  cases outcome with
  | failed failed => cases met_of_failure sound failed
  | clashed clash =>
    generalize all : (ofRoots fs roots).files.map (Job.ofFound destination settings) = jobs at clash
    cases clash with
    | @intro before between after one other whole _ _ same differ =>
      have mem : one ∈ jobs := by simp [whole]
      have mem' : other ∈ jobs := by simp [whole]
      rw [← all] at mem mem'
      obtain ⟨found, there, rfl⟩ := List.mem_map.mp mem
      obtain ⟨found', there', rfl⟩ := List.mem_map.mp mem'
      have genuine := ofRoots_genuine sound roots
      exact ⟨found, there, found', there', rfl, rfl,
        (sameOutput_iff (genuine found there) (genuine found' there')).mp same, differ⟩

/-- Two of the roots lead to one directory that shows a file, and have other components. -/
structure Respelled (fs : FileSystem) (roots : List Path) (top : NodeId) : Prop where
  isDirectory : fs.isDirectoryNode top
  shows : ∃ names, Shows fs top names
  twice : ∃ root ∈ roots, ∃ root' ∈ roots, fs.resolve root = .ok top ∧
    fs.resolve root' = .ok top ∧ root.components ≠ root'.components

theorem Respelled.not_ok {top : NodeId} (sound : fs.Sound) (respelled : Respelled fs roots top)
    (jobs : List Job) : Discovery.jobs fs roots destination settings ≠ .ok jobs := by
  intro ok
  obtain ⟨well, agree⟩ := jobs_ok_iff.mp ⟨jobs, ok⟩
  obtain ⟨isDirectory, ⟨names, shown⟩, root, held, root', held', there, there', differ⟩ := respelled
  have mem {root : Path} (held : root ∈ roots) (there : fs.resolve root = .ok top) :
      ⟨root.append ⟨Path.join names⟩, ⟨Path.join names⟩⟩ ∈ (ofRoots fs roots).files :=
    (mem_files_ofRoots well).mpr
      ⟨root, held, mem_of_shows sound (unfailing_ofRoots well root held) there isDirectory shown⟩
  have valid := shown.valid sound
  -- The file has one relative path below both roots, so its two jobs have one output.
  have same := agree _ (List.mem_map_of_mem (mem held there)) _
    (List.mem_map_of_mem (mem held' there')) rfl
  change (root.append _).components = (root'.append _).components at same
  rw [Path.components_append_join valid, Path.components_append_join valid,
    List.append_cancel_right_eq] at same
  exact differ same

theorem sameFile_of_collision {top : NodeId} (sound : fs.Sound)
    (isDirectory : fs.isDirectoryNode top) (all : ∀ root ∈ roots, fs.resolve root = .ok top)
    (collides : Discovery.jobs fs roots destination settings =
      .error ⟨path, .outputCollision first output⟩)
    (usable : first.Usable) (usable' : path.Usable) : fs.SameFile first path := by
  obtain ⟨found, there, found', there', rfl, rfl, same, _⟩ := files_of_collision sound collides
  obtain ⟨root, held, arises⟩ := arises_of_mem_roots sound there
  obtain ⟨root', held', arises'⟩ := arises_of_mem_roots sound there'
  obtain ⟨id, _, _, leads⟩ := (ofRoots_genuine sound roots found there).file
  obtain ⟨id', _, _, leads'⟩ := (ofRoots_genuine sound roots found' there').file
  exact sameFile_of_same_directory sound (all root held) (all root' held') isDirectory arises
    arises' same ⟨id, leads usable⟩ ⟨id', leads' usable'⟩

/-- Whether two files with one output are one file is told by their paths. Where nothing is
reached in two ways, those that collide are two files. Two roots with other components that lead
to one directory end in an error; if no others are there, the collision has one file for both. -/
theorem collision_told_by_paths {items : List Walk.Item} (sound : fs.Sound)
    (gives : Walk.Gives fs (.ofRoots roots) items) (destination : Path) (settings : Settings) :
    (∀ path first output, Discovery.jobs fs roots destination settings =
        .error ⟨path, .outputCollision first output⟩ →
      first.components ≠ path.components ∧ (fs.Straight roots → ¬ fs.SameFile first path)) ∧
    ∀ top, Respelled fs roots top →
      (∀ jobs, Discovery.jobs fs roots destination settings ≠ .ok jobs) ∧
      ((∀ e, .error e ∉ items) → (∀ root ∈ roots, fs.resolve root = .ok top) →
        ∃ path first output, Discovery.jobs fs roots destination settings =
            .error ⟨path, .outputCollision first output⟩ ∧
          (first.Usable → path.Usable → fs.SameFile first path)) := by
  cases Walk.gives_unique gives (Walk.gives_items sound roots)
  refine ⟨fun path first output collides => ?_, fun top respelled => ⟨respelled.not_ok sound, ?_⟩⟩
  · obtain ⟨found, there, found', there', rfl, rfl, _, differ⟩ := files_of_collision sound collides
    refine ⟨differ, fun straight same => differ ?_⟩
    obtain ⟨root, held, arises⟩ := arises_of_mem_roots sound there
    obtain ⟨root', held', arises'⟩ := arises_of_mem_roots sound there'
    exact components_of_straight sound straight held held' arises arises' same
  · intro well all
    have outcome := jobs_outcome fs roots destination settings
    generalize result : Discovery.jobs fs roots destination settings = jobs at outcome
    cases outcome with
    | kept => exact absurd result (respelled.not_ok sound _)
    | failed failed => exact absurd (error_mem_items.mpr failed) (well _)
    | clashed clash =>
      cases clash with
      | intro =>
        exact ⟨_, _, _, rfl, sameFile_of_collision sound respelled.isDirectory all result⟩

def collisionOfA (lib lib' : String) : WalkError :=
  ⟨.ofString (lib' ++ "/a.js"),
    .outputCollision (.ofString (lib ++ "/a.js")) (.ofString "out/a.js")⟩

set_option maxRecDepth 4000 in
theorem collision_of_two_files_and_of_two_spellings :
    twoOfOneName.Sound ∧
      (Discovery.jobs twoOfOneName [.ofString "lib", .ofString "mod"] (.ofString "out") {} =
          .error (collisionOfA "lib" "mod") ∧
        twoOfOneName.Straight [.ofString "lib", .ofString "mod"] ∧
        ¬ twoOfOneName.SameFile (.ofString "lib/a.js") (.ofString "mod/a.js")) ∧
      Respelled twoOfOneName [.ofString "lib", .ofString "./lib"] 1 ∧
        ∃ path first output,
          Discovery.jobs twoOfOneName [.ofString "lib", .ofString "./lib"] (.ofString "out") {} =
            .error ⟨path, .outputCollision first output⟩ ∧
          (first.Usable → path.Usable → twoOfOneName.SameFile first path) := by
  have sound := twoOfOneName_sound
  have apart : Discovery.jobs twoOfOneName [.ofString "lib", .ofString "mod"]
      (.ofString "out") {} = .error (collisionOfA "lib" "mod") := by cbv
  have straight : twoOfOneName.Straight [.ofString "lib", .ofString "mod"] :=
    ⟨linkless_of_numbered (by decide +kernel), noHardLinks_of_nodup (by decide +kernel),
      by unfold Path.Plain; decide +kernel, by decide +kernel⟩
  have plain (target : Path) : twoOfOneName.node? 2 ≠ some (.link target) :=
    linkless_of_numbered (by decide +kernel) 2 target
  have shown : Shows twoOfOneName 1 [Text.encode "a.js"] :=
    ⟨by decide +kernel, 2, _, reaches_single (.head _) (.itself plain), rfl⟩
  have there : twoOfOneName.resolve (.ofString "lib") = .ok 1 := by cbv
  have there' : twoOfOneName.resolve (.ofString "./lib") = .ok 1 := by cbv
  have respelled : Respelled twoOfOneName [.ofString "lib", .ofString "./lib"] 1 :=
    ⟨rfl, ⟨_, shown⟩, _, .head _, _, .tail _ (.head _), there, there', by decide +kernel⟩
  have unfailing :
      (Tour.ofRoots twoOfOneName [.ofString "lib", .ofString "./lib"]).failure = none := by cbv
  have gives := Walk.gives_items sound [.ofString "lib", .ofString "mod"]
  have gives' := Walk.gives_items sound [.ofString "lib", .ofString "./lib"]
  have collides := (collision_told_by_paths sound gives (.ofString "out") {}).1 _ _ _ apart
  have itself := ((collision_told_by_paths sound gives' (.ofString "out") {}).2 1 respelled).2
    (Tour.failure_eq_none.mp unfailing) (by simp [there, there'])
  exact ⟨sound, ⟨apart, straight, collides.2 straight⟩, respelled, itself⟩

set_option maxRecDepth 4000 in
/-- A directory given with a dot before it collides with itself, at one of its files. -/
theorem module_collides_with_itself :
    twoOfOneName.Sound ∧
      Discovery.jobs twoOfOneName [.ofString "lib", .ofString "./lib"] (.ofString "out") {} =
        .error (collisionOfA "lib" "./lib") ∧
      twoOfOneName.SameFile (.ofString "lib/a.js") (.ofString "./lib/a.js") := by
  have collides : Discovery.jobs twoOfOneName [.ofString "lib", .ofString "./lib"]
      (.ofString "out") {} = .error (collisionOfA "lib" "./lib") := by cbv
  have there : twoOfOneName.resolve (.ofString "lib/a.js") = .ok 2 := by cbv
  have there' : twoOfOneName.resolve (.ofString "./lib/a.js") = .ok 2 := by cbv
  exact ⟨twoOfOneName_sound, collides, 2, there, there'⟩

end Discovery

end ModuleTree
