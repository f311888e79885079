import Mathlib
import ModuleTree.Proofs.Walk.Found
import ModuleTree.Proofs.Walk.Iteration
/- What a walk without an error gives: root by root the regular files that visible names lead to,
   each of them once, in the order of the names. -/
namespace ModuleTree

namespace FileSystem

variable {fs : FileSystem} {top id : NodeId} {names : List Bytes}

theorem reaches_from_plain (plain : fs.isDirectoryNode top = false)
    (h : fs.Reaches top names id) : names = [] ∧ id = top := by
  cases h with
  | here => exact ⟨rfl, rfl⟩
  | step entry =>
    obtain ⟨parent, node⟩ := node_of_mem_entries entry
    simp [isDirectoryNode, node] at plain

end FileSystem

namespace Tour
open FileSystem ModuleTree.Path

/-- Names that lead to a regular file, none of them hidden. -/
structure Shows (fs : FileSystem) (top : NodeId) (names : List Bytes) : Prop where
  visible : ∀ name ∈ names, isHidden name = false
  file : ∃ id content, fs.Reaches top names id ∧ fs.node? id = some (.file content)

/-- What a root holds is told by what it leads to. -/
inductive Holds (fs : FileSystem) (root : Path) : List Found → Prop where
  | file {id : NodeId} {content : ByteArray} {name : Bytes} (there : fs.resolve root = .ok id)
      (file : fs.node? id = some (.file content)) (named : root.fileName? = some name) :
      Holds fs root [⟨root, ⟨name⟩⟩]
  | directory {top : NodeId} {files : List Found} (there : fs.resolve root = .ok top)
      (isDirectory : fs.isDirectoryNode top)
      (exactly : ∀ found, found ∈ files ↔
        ∃ names, Shows fs top names ∧ found = ⟨root.append ⟨join names⟩, ⟨join names⟩⟩)
      (increasing : files.Pairwise fun a b => a.relative.names < b.relative.names) :
      Holds fs root files
  | other {id : NodeId} (there : fs.resolve root = .ok id)
      (notDirectory : fs.isDirectoryNode id = false)
      (notFile : ∀ content, fs.node? id ≠ some (.file content)) : Holds fs root []

variable {fs : FileSystem} {root : Path} {trail : Trail} {names later : List Bytes}
  {id file top child next : NodeId} {name : Bytes} {entries : List (Bytes × NodeId)} {tour : Tour}
  {found : Found}

theorem Shows.first (shown : Shows fs id later) (isDirectory : fs.isDirectoryNode id) :
    ∃ entry ∈ fs.entries id, later.head? = some entry.1 := by
  obtain ⟨file, content, way, isFile⟩ := shown.file
  cases way with
  | here => simp [isDirectoryNode, isFile] at isDirectory
  | step entry => exact ⟨_, entry, rfl⟩

theorem Shows.step (sound : fs.Sound) (shown : Shows fs id (name :: later))
    (stands : Stands fs root names trail id) (entry : (name, child) ∈ fs.entries id)
    (identified : identify fs root trail (root.below (names ++ [name])) child = .ok next) :
    isHidden name = false ∧ Shows fs next later := by
  obtain ⟨here, visible⟩ := List.forall_mem_cons.mp shown.visible
  obtain ⟨file, content, way, isFile⟩ := shown.file
  cases way with
  | step entry' denotes way =>
    cases child_unique sound entry entry'
    rw [below_concat] at identified
    cases denotes_unique denotes (denotes_of_identify sound stands.opened entry identified)
    exact ⟨here, visible, file, content, way, isFile⟩

theorem Shows.passed {visit : Visit} (sound : fs.Sound) (shown : Shows fs id (name :: later))
    (stands : Stands fs root names trail id) (entry : (name, child) ∈ fs.entries id)
    (arrives : arrive fs root trail (isHidden name) (root.below (names ++ [name])) child =
      .ok (.pass visit)) :
    later = [] ∧ visit = .file ⟨root.below (names ++ [name]), ⟨join (names ++ [name])⟩⟩ := by
  obtain ⟨next, identified, passes⟩ := arrive_passed arrives
  obtain ⟨visible, _, file, content, way, isFile⟩ := shown.step sound stands entry identified
  rw [visible] at passes
  have plain : fs.isDirectoryNode next = false := by
    cases passes with
    | irregular notDirectory => exact notDirectory
    | file here => simp [isDirectoryNode, here]
  obtain ⟨rfl, rfl⟩ := reaches_from_plain plain way
  refine ⟨rfl, ?_⟩
  cases passes with
  | irregular _ notFile => exact absurd isFile (notFile content)
  | file => rw [(file_of_arrives sound stands entry arrives).2.1]

theorem Covers.finds (sound : fs.Sound) (covers : Covers fs root names trail entries tour)
    (well : tour.failure = none) (stands : Stands fs root names trail id)
    (inside : ∀ entry ∈ entries, entry ∈ fs.entries id) (shown : Shows fs id later)
    (first : ∃ entry ∈ entries, later.head? = some entry.1) :
    ⟨root.below (names ++ later), ⟨join (names ++ later)⟩⟩ ∈ tour.files := by
  -- On the tour. The first of the names belongs to the entry the tour is at, or to a later one.
  induction covers generalizing id later with
  | done =>
    obtain ⟨_, mem, _⟩ := first
    cases mem
  | stopped => cases well
  | @passed names trail name child rest visit after arrives _ ih =>
    rw [failure_append] at well
    obtain ⟨entry, mem, head⟩ := first
    obtain ⟨more, rfl⟩ := List.head?_eq_some_iff.mp head
    rw [files_append rfl]
    rcases List.mem_cons.mp mem with rfl | later
    · obtain ⟨rfl, rfl⟩ := shown.passed sound stands (inside _ List.mem_cons_self) arrives
      exact List.mem_append_left _ (List.mem_singleton_self _)
    · exact List.mem_append_right _ (ih well stands (fun e mem => inside e (.tail _ mem)) shown
        ⟨entry, later, head⟩)
  | @entered names trail name child next entries rest within after arrives _ _ ihDeeper ihLater =>
    rw [failure_append, Option.or_eq_none_iff] at well
    obtain ⟨entry, mem, head⟩ := first
    obtain ⟨more, rfl⟩ := List.head?_eq_some_iff.mp head
    rw [files_append well.1]
    rcases List.mem_cons.mp mem with rfl | later
    · have entry := inside _ List.mem_cons_self
      obtain ⟨deepen, listed⟩ := stands.enter sound entry arrives
      obtain ⟨_, onward⟩ := shown.step sound stands entry (arrive_inside arrives).2.1
      have held : ∀ e ∈ entries, e ∈ fs.entries next := fun e mem => mem_inOrder.mp (listed ▸ mem)
      obtain ⟨first, mem, head⟩ := onward.first deepen.opened.isDirectory
      have found := ihDeeper well.1 deepen held onward ⟨first, listed ▸ mem_inOrder.mpr mem, head⟩
      rw [List.append_assoc, List.singleton_append] at found
      exact List.mem_append_left _ found
    · exact List.mem_append_right _ (ihLater well.2 stands
        (fun e mem => inside e (.tail _ mem)) shown ⟨entry, later, head⟩)

theorem shows_of_arrives (sound : fs.Sound) (stands : Stands fs root names trail id)
    (entry : (name, child) ∈ fs.entries id)
    (arrives : arrive fs root trail (isHidden name) (root.below (names ++ [name])) child =
      .ok (.pass (.file found))) (top_ : fs.resolve root = .ok top) :
    Shows fs top (names ++ [name]) ∧
      found = ⟨root.below (names ++ [name]), ⟨join (names ++ [name])⟩⟩ := by
  obtain ⟨visible, same, next, content, identified, file⟩ :=
    file_of_arrives sound stands entry arrives
  refine ⟨⟨List.forall_mem_append.mpr ⟨stands.visible, by simpa using visible⟩, next, content,
    ?_, file⟩, same⟩
  rw [below_concat] at identified
  exact reaches_append.mpr ⟨id, stands.reaches sound top_,
    reaches_single entry (denotes_of_identify sound stands.opened entry identified)⟩

theorem Covers.shown (sound : fs.Sound) (covers : Covers fs root names trail entries tour)
    (stands : Stands fs root names trail id) (inside : ∀ entry ∈ entries, entry ∈ fs.entries id)
    (top_ : fs.resolve root = .ok top) (mem : found ∈ tour.files) :
    ∃ entry ∈ entries, ∃ more, Shows fs top (names ++ entry.1 :: more) ∧
      found = ⟨root.below (names ++ entry.1 :: more), ⟨join (names ++ entry.1 :: more)⟩⟩ := by
  obtain ⟨there, entry, arrives, first, held, head⟩ :=
    (covers.comesTo sound stands inside).1 _ (mem_files.mp mem)
  obtain ⟨more, whole⟩ := List.head?_eq_some_iff.mp head
  obtain ⟨shown, same⟩ := shows_of_arrives sound there entry arrives top_
  rw [List.append_assoc, whole] at shown same
  exact ⟨first, held, more, shown, same⟩

theorem Shows.valid (sound : fs.Sound) (shown : Shows fs top names) :
    ∀ name ∈ names, IsName name := by
  obtain ⟨file, content, way, _⟩ := shown.file
  exact names_of_reaches sound way

section Order

theorem Covers.begins (sound : fs.Sound) (covers : Covers fs root names trail entries tour)
    (stands : Stands fs root names trail id) (inside : ∀ entry ∈ entries, entry ∈ fs.entries id)
    (top_ : fs.resolve root = .ok top) (mem : found ∈ tour.files) :
    ∃ entry ∈ entries, ∃ more, found.relative.names = names ++ entry.1 :: more := by
  obtain ⟨entry, held, more, shown, rfl⟩ := covers.shown sound stands inside top_ mem
  exact ⟨entry, held, more, names_join (shown.valid sound)⟩

theorem pairwise_files_append {a b : Tour} {r : Found → Found → Prop} (first : a.files.Pairwise r)
    (second : b.files.Pairwise r) (across : ∀ x ∈ a.files, ∀ y ∈ b.files, r x y) :
    (a ++ b).files.Pairwise r := by
  cases failure : a.failure with
  | some e => rwa [append_eq_of_failure failure]
  | none =>
    rw [files_append failure]
    exact List.pairwise_append.mpr ⟨first, second, across⟩

theorem Covers.lt_of_later {rest : List (Bytes × NodeId)} {front after : Tour} {a b : Found}
    (sound : fs.Sound) (here : Covers fs root names trail [(name, child)] front)
    (later : Covers fs root names trail rest after) (stands : Stands fs root names trail id)
    (inside : ∀ entry ∈ (name, child) :: rest, entry ∈ fs.entries id)
    (least : ∀ entry ∈ rest, name < entry.1) (top_ : fs.resolve root = .ok top)
    (first : a ∈ front.files) (second : b ∈ after.files) :
    a.relative.names < b.relative.names := by
  have alone : ∀ entry ∈ [(name, child)], entry ∈ fs.entries id := fun e mem =>
    inside e (List.mem_singleton.mp mem ▸ List.mem_cons_self)
  obtain ⟨entry, mem, more, names_⟩ := here.begins sound stands alone top_ first
  obtain ⟨entry', mem', more', names_'⟩ :=
    later.begins sound stands (fun e mem => inside e (.tail _ mem)) top_ second
  cases List.mem_singleton.mp mem
  rw [names_, names_']
  exact List.append_left_lt (List.cons_lt_cons_iff.mpr (.inl (least entry' mem')))

theorem Covers.increasing (sound : fs.Sound) (covers : Covers fs root names trail entries tour)
    (stands : Stands fs root names trail id) (inside : ∀ entry ∈ entries, entry ∈ fs.entries id)
    (sorted : entries.Pairwise fun a b => a.1 < b.1) (top_ : fs.resolve root = .ok top) :
    tour.files.Pairwise fun a b => a.relative.names < b.relative.names := by
  induction covers generalizing id with
  | done => exact .nil
  | stopped => exact .nil
  | @passed names trail name child rest visit after arrives later ih =>
    obtain ⟨least, sorted⟩ := List.pairwise_cons.mp sorted
    have onward := ih stands (fun e mem => inside e (.tail _ mem)) sorted
    refine pairwise_files_append ?_ onward fun a first b second =>
      Covers.lt_of_later sound (.passed arrives .done) later stands inside least top_ first second
    cases visit with
    | file => exact List.pairwise_singleton _ _
    | _ => exact .nil
  | @entered names trail name child next entries rest within after arrives deeper later ih ih' =>
    obtain ⟨least, sorted⟩ := List.pairwise_cons.mp sorted
    obtain ⟨deepen, listed⟩ := stands.enter sound (inside _ List.mem_cons_self) arrives
    have within_ : within.files.Pairwise fun a b => a.relative.names < b.relative.names :=
      ih deepen (fun e mem => mem_inOrder.mp (listed ▸ mem))
        (listed ▸ increasing_inOrder (sound.distinct next))
    have onward := ih' stands (fun e mem => inside e (.tail _ mem)) sorted
    have alone : Covers fs root names trail [(name, child)] within := by
      rw [← append_empty within]
      exact .entered arrives deeper .done
    exact pairwise_files_append within_ onward fun a first b second =>
      Covers.lt_of_later sound alone later stands inside least top_ first second

end Order

theorem holds_of_unfailing (sound : fs.Sound) (well : (ofRoot fs root).failure = none) :
    Holds fs root (ofRoot fs root).files := by
  have covers := coversRoot_ofRoot sound root
  generalize ofRoot fs root = tour at covers well
  cases covers with
  | stopped => cases well
  | passed arrives =>
    obtain ⟨id, there, passes⟩ := enterRoot_passed arrives
    cases passes with
    | irregular notDirectory notFile => exact .other there notDirectory notFile
    | file file stripped =>
      obtain ⟨front, name, names, valid⟩ := name_of_file sound there file
      have own := relativeToRoot_self valid names
      cases Except.ok.inj (stripped.symm.trans own)
      exact .file there file (fileName?_of_segmentNames valid names)
  | @entered _ top entries arrives covers =>
    obtain ⟨opened, listed⟩ := enterRoot_inside arrives
    have inside : ∀ entry ∈ entries, entry ∈ fs.entries top := fun e mem =>
      mem_inOrder.mp (listed ▸ mem)
    refine .directory opened.resolved opened.isDirectory (fun found => ⟨fun mem => ?_, ?_⟩)
      (covers.increasing sound (.root opened) inside
        (listed ▸ increasing_inOrder (sound.distinct top)) opened.resolved)
    · obtain ⟨entry, held, more, shown, rfl⟩ :=
        covers.shown sound (.root opened) inside opened.resolved mem
      refine ⟨_, shown, ?_⟩
      rw [List.nil_append, below_eq_append (List.cons_ne_nil _ _) (shown.valid sound)]
    · rintro ⟨names, shown, rfl⟩
      obtain ⟨first, mem, head⟩ := shown.first opened.isDirectory
      have some : names ≠ [] := fun none => by simp [none] at head
      have found := covers.finds sound well (.root opened) inside shown
        ⟨first, listed ▸ mem_inOrder.mpr mem, head⟩
      rwa [List.nil_append, below_eq_append some (shown.valid sound)] at found

theorem holds_of_unfailing_roots (sound : fs.Sound) {roots : List Path}
    (well : (ofRoots fs roots).failure = none) :
    ∃ held, List.Forall₂ (Holds fs) roots held ∧ (ofRoots fs roots).files = held.flatten := by
  induction roots with
  | nil => exact ⟨[], .nil, rfl⟩
  | cons root roots ih =>
    rw [ofRoots, failure_append, Option.or_eq_none_iff, failure_append,
      Option.or_eq_none_iff] at well
    obtain ⟨_, here, later⟩ := well
    obtain ⟨held, each, files_⟩ := ih later
    refine ⟨_ :: held, .cons (holds_of_unfailing sound here) each, ?_⟩
    rw [ofRoots, files_append rfl, files_append here, files_, List.flatten_cons]
    rfl

end Tour

namespace Walk
open Tour

/-- A walk that gives no error gives what each root holds, one root after another. -/
theorem gives_what_roots_hold {fs : FileSystem} {roots : List Path} {items : List Item}
    (sound : fs.Sound) (gives : Gives fs (.ofRoots roots) items) (well : ∀ e, .error e ∉ items) :
    ∃ held, List.Forall₂ (Tour.Holds fs) roots held ∧ items = held.flatten.map .ok := by
  cases gives_unique gives (gives_items sound roots)
  have unfailing := failure_eq_none.mpr well
  obtain ⟨held, each, files_⟩ := holds_of_unfailing_roots sound unfailing
  refine ⟨held, each, ?_⟩
  rw [Tour.items, unfailing, files_]
  exact List.append_nil _

def mixed : FileSystem where
  nodes := #[
    .directory 0 [(Text.encode "e", 1), (Text.encode "in", 3), (Text.encode "x.js", 10)],
    .directory 0 [(Text.encode "c.js", 2)],
    .file "c".toUTF8,
    .directory 0 [(Text.encode ".git", 4), (Text.encode "a", 6), (Text.encode "a.js", 8),
      (Text.encode "l", 9)],
    .directory 3 [(Text.encode "config", 5)],
    .file "hidden".toUTF8,
    .directory 3 [(Text.encode "b.js", 7)],
    .file "b".toUTF8,
    .file "a".toUTF8,
    .link (.ofString "../e"),
    .file "x".toUTF8]
  root := 0
  home := 0

def mixedRoots : List Path := [.ofString "in", .ofString "x.js"]

def mixedItems : List Item :=
  [.ok ⟨.ofString "in/a/b.js", .ofString "a/b.js"⟩, .ok ⟨.ofString "in/a.js", .ofString "a.js"⟩,
    .ok ⟨.ofString "in/l/c.js", .ofString "l/c.js"⟩, .ok ⟨.ofString "x.js", .ofString "x.js"⟩]

set_option maxRecDepth 4000 in
theorem mixed_roots_hold :
    mixed.Sound ∧ Gives mixed (.ofRoots mixedRoots) mixedItems ∧ (∀ e, .error e ∉ mixedItems) ∧
      ∃ held, List.Forall₂ (Tour.Holds mixed) mixedRoots held ∧
        mixedItems = held.flatten.map .ok := by
  have sound : mixed.Sound :=
    FileSystem.sound_of_numbered (by decide) (by decide) (by decide +kernel)
  have tour : (Tour.ofRoots mixed mixedRoots).items = mixedItems := by cbv
  have gives := gives_items sound mixedRoots
  rw [tour] at gives
  have well : ∀ e, .error e ∉ mixedItems := by simp [mixedItems]
  exact ⟨sound, gives, well, gives_what_roots_hold sound gives well⟩

end Walk

end ModuleTree
