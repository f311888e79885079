import Mathlib
import ModuleTree.Proofs.Walk.Overlap
/- Where files and outputs are. However a root is written, a file is relative to it by the names
   of the entries that lead there, and one that is a root by its own name; so that no walk ends
   because a file is not below its root. Outputs are called by the same names below the
   destination. -/
namespace ModuleTree

inductive WalkProblem.Met : WalkProblem → Prop where
  | stat (reported : Option Path) (error : IoError) : Met (.stat reported error)
  | readDirectory (reported : Option Path) (error : IoError) : Met (.readDirectory reported error)
  | loop (ancestor : Path) : Met (.loop ancestor)

namespace Tour
open FileSystem ModuleTree.Path

/-- A file is called by the names of the entries on the way to it from its root. A root that is a
file, or a link to one, is called by its own name. -/
inductive Called (fs : FileSystem) (root : Path) : Found → List Bytes → Prop where
  | itself {id : NodeId} {content : ByteArray} {name : Bytes} (there : fs.resolve root = .ok id)
      (file : fs.node? id = some (.file content)) (named : root.fileName? = some name) :
      Called fs root ⟨root, ⟨join [name]⟩⟩ [name]
  | below {top id : NodeId} {content : ByteArray} {names : List Bytes}
      (there : fs.resolve root = .ok top) (isDirectory : fs.isDirectoryNode top)
      (way : fs.Reaches top names id) (file : fs.node? id = some (.file content)) :
      Called fs root ⟨root.below names, ⟨join names⟩⟩ names

/-- A file and its output, each told by the names of the file. -/
structure Situated (fs : FileSystem) (destination : Path) (settings : Settings) (root : Path)
    (found : Found) (names : List Bytes) : Prop where
  called : Called fs root found names
  further : names ≠ []
  proper : ∀ name ∈ names, IsName name
  relative : found.relative.components = names.map .name
  output : (Job.ofFound destination settings found).output.components =
    destination.components ++ found.relative.components

variable {fs : FileSystem} {root path : Path} {roots : List Path} {trail : Trail}
  {names : List Bytes} {id child : NodeId} {name : Bytes} {found : Found} {e : WalkError}

section Failure

theorem met_fault (blamed : Option Path) (reason : IoError) :
    (fault fs root blamed reason).problem.Met := by
  unfold fault
  dsimp only
  split
  · exact .readDirectory _ _
  · exact .stat _ _

theorem met_of_entry (sound : fs.Sound) (stands : Stands fs root names trail id)
    (entry : (name, child) ∈ fs.entries id)
    (arrives : arrive fs root trail (isHidden name) (root.below (names ++ [name])) child =
      .error e) : e.problem.Met := by
  have stops := arrive_stopped arrives
  generalize isHidden name = hidden at stops
  cases stops with
  | fault blamed reason => exact met_fault blamed reason
  | loop ancestor => exact .loop ancestor
  | unrelated _ _ unstripped => cases unstripped.symm.trans (stands.relative sound entry)

theorem met_of_enterRoot (sound : fs.Sound) (arrives : enterRoot fs root = .error e) :
    e.problem.Met := by
  unfold enterRoot at arrives
  split at arrives
  · cases arrives
    exact met_fault _ _
  · rename_i start link
    cases arrive_stopped arrives with
    | fault blamed reason => exact met_fault blamed reason
    | loop ancestor => exact .loop ancestor
    | unrelated identified file unstripped =>
      obtain ⟨front, name, names, valid⟩ :=
        name_of_file sound (resolve_of_identify link identified) file
      cases unstripped.symm.trans (relativeToRoot_self valid names)

theorem met_of_failure (sound : fs.Sound) (failure : (ofRoots fs roots).failure = some e) :
    e.problem.Met := by
  obtain ⟨root, _, here⟩ := failure_ofRoots failure
  have covers := coversRoot_ofRoot sound root
  generalize ofRoot fs root = tour at covers here
  cases covers with
  | stopped arrives =>
    cases here
    exact met_of_enterRoot sound arrives
  | passed => cases here
  | entered arrives covers =>
    obtain ⟨opened, listed⟩ := enterRoot_inside arrives
    obtain ⟨stands, entry, arrives, _⟩ :=
      (covers.comesTo sound (.root opened) fun e mem => mem_inOrder.mp (listed ▸ mem)).2 _ here
    exact met_of_entry sound stands entry arrives

end Failure

theorem Arises.situated (sound : fs.Sound) (arises : Arises fs root found) (destination : Path)
    (settings : Settings) : ∃ names, Situated fs destination settings root found names := by
  have output {names : List Bytes} (valid : ∀ name ∈ names, IsName name) (path : Path) :
      (Job.ofFound destination settings ⟨path, ⟨join names⟩⟩).output.components =
        destination.components ++ (⟨join names⟩ : Path).components := by
    rw [Job.ofFound, components_append_join valid, components_join valid]
  cases arises with
  | @itself id content front name there file named valid =>
    have all : ∀ n ∈ [name], IsName n := by simpa using valid
    exact ⟨[name], .itself there file (fileName?_of_segmentNames valid named),
      List.cons_ne_nil _ _, all, components_join all, output all root⟩
  | @below top names there isDirectory further shown =>
    obtain ⟨id, content, way, file⟩ := shown.file
    have all := shown.valid sound
    exact ⟨names, .below there isDirectory way file, further, all, components_join all,
      output all _⟩

namespace Situated

variable {destination : Path} {settings : Settings}

theorem relative_names (situated : Situated fs destination settings root found names) :
    found.relative.names = names := by
  rw [Path.names, situated.relative, List.filterMap_map]
  exact List.filterMap_some

theorem place (situated : Situated fs destination settings root found names) :
    (Job.ofFound destination settings found).output.isAbsolute = destination.isAbsolute ∧
      (Job.ofFound destination settings found).output.segmentNames =
        destination.segmentNames ++ names := by
  have valid := situated.proper
  have bare := isAbsolute_join valid
  cases situated.called <;>
    exact ⟨isAbsolute_append bare, by
      rw [Job.ofFound, segmentNames_append bare, segmentNames_join valid]⟩

end Situated

end Tour

namespace Discovery
open Tour

variable {fs : FileSystem} {roots : List Path} {items : List Walk.Item}

/-- No file is too much for the way that it is made relative, and outputs never leave the
destination. -/
theorem outputs_within_destination (sound : fs.Sound)
    (gives : Walk.Gives fs (.ofRoots roots) items) (destination : Path) (settings : Settings) :
    (∀ e, .error e ∈ items ∨ Discovery.jobs fs roots destination settings = .error e →
      ∀ reason, e.problem ≠ .unrelated reason) ∧
    (∀ found, .ok found ∈ items →
      ∃ root ∈ roots, ∃ names, Situated fs destination settings root found names) ∧
    ∀ jobs, Discovery.jobs fs roots destination settings = .ok jobs →
      ∀ job ∈ jobs, ∃ found, .ok found ∈ items ∧ job = .ofFound destination settings found := by
  cases Walk.gives_unique gives (Walk.gives_items sound roots)
  have related {e : WalkError} (failed : (ofRoots fs roots).failure = some e)
      (reason : Path.StripError) : e.problem ≠ .unrelated reason := by
    intro same
    have met := met_of_failure sound failed
    rw [same] at met
    cases met
  refine ⟨fun e blamed => ?_, fun found mem => ?_, fun jobs ok job mem => ?_⟩
  · rcases blamed with item | failed
    · exact related (error_mem_items.mp item)
    · have outcome := jobs_outcome fs roots destination settings
      rw [failed] at outcome
      cases outcome with
      | failed failure => exact related failure
      | clashed clash =>
        cases clash
        rintro _ ⟨⟩
  · obtain ⟨root, held, arises⟩ := arises_of_mem_roots sound (ok_mem_items.mp mem)
    exact ⟨root, held, arises.situated sound destination settings⟩
  · obtain ⟨found, there, same⟩ := found_of_job ok mem
    exact ⟨found, ok_mem_items.mpr there, same⟩

def linkedModule : FileSystem where
  nodes := #[.directory 0 [(Text.encode "in", 1), (Text.encode "m.js", 4)],
    .directory 0 [(Text.encode "a", 2)], .directory 1 [(Text.encode "b.js", 3)],
    .file "b".toUTF8, .link (.ofString "in/a/b.js")]
  root := 0
  home := 0

def dottedRoots : List Path := [.ofString "./in/.//", .ofString "in/../m.js"]

def linkedModuleItems : List Walk.Item :=
  [.ok ⟨.ofString "./in/.//a/b.js", .ofString "a/b.js"⟩,
    .ok ⟨.ofString "in/../m.js", .ofString "m.js"⟩]

set_option maxRecDepth 4000 in
theorem outputs_of_dotted_roots :
    linkedModule.Sound ∧ Walk.Gives linkedModule (.ofRoots dottedRoots) linkedModuleItems ∧
      (∀ e, .error e ∈ linkedModuleItems ∨
          Discovery.jobs linkedModule dottedRoots (.ofString "t/../out/") {} = .error e →
        ∀ reason, e.problem ≠ .unrelated reason) ∧
      (∀ found, .ok found ∈ linkedModuleItems → ∃ root ∈ dottedRoots, ∃ names,
        Situated linkedModule (.ofString "t/../out/") {} root found names) ∧
      ∀ jobs, Discovery.jobs linkedModule dottedRoots (.ofString "t/../out/") {} = .ok jobs →
        ∀ job ∈ jobs, ∃ found, .ok found ∈ linkedModuleItems ∧
          job = .ofFound (.ofString "t/../out/") {} found := by
  have sound : linkedModule.Sound :=
    FileSystem.sound_of_numbered (by decide) (by decide) (by decide +kernel)
  have items : (ofRoots linkedModule dottedRoots).items = linkedModuleItems := by cbv
  have gives := items ▸ Walk.gives_items sound dottedRoots
  exact ⟨sound, gives, outputs_within_destination sound gives _ _⟩

end Discovery

end ModuleTree
