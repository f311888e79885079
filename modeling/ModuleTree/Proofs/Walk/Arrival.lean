import ModuleTree.Proofs.FileSystem.Reach
import ModuleTree.Walk.Tour
/- What an entry of a directory is to a tour. A link is what its path leads to, and a directory
   is listed by its path; in a sound file system that is the directory the entry stands for. -/
namespace ModuleTree

namespace Path

/-- A path short enough to be followed anywhere. -/
structure Usable (p : Path) : Prop where
  named : FileSystem.refuse? p = none
  short : ∀ name ∈ p.segmentNames, name.length ≤ FileSystem.nameLimit

theorem nonempty_of_unrefused {p : Path} (h : FileSystem.refuse? p = none) : p.isEmpty = false := by
  cases empty : p.isEmpty with
  | false => rfl
  | true =>
    unfold FileSystem.refuse? at h
    split at h
    · cases h
    · simp at h

theorem endsInSlash_child {p : Path} {name : Bytes} (valid : IsName name) :
    (p.child name).endsInSlash = false := by
  have last : (p.child name).bytes.getLast? = name.getLast? := by
    unfold child append
    rw [if_neg (by simp [(relative_of_isName valid).1])]
    obtain ⟨front, b, whole⟩ := (List.eq_nil_or_concat name).resolve_left valid.nonempty
    rw [List.concat_eq_append] at whole
    split
    · rfl
    · split
      · rw [whole, ← List.append_assoc, List.getLast?_concat, List.getLast?_concat]
      · rw [whole, ← List.cons_append, ← List.append_assoc, List.getLast?_concat,
          List.getLast?_concat]
  unfold endsInSlash
  rw [last]
  apply decide_eq_false
  intro slashed
  exact valid.slashFree (List.mem_of_getLast? slashed)

end Path

namespace FileSystem

variable {fs : FileSystem} {p : Path} {id : NodeId}

theorem short_of_leads {names : List Bytes} {left left' : Nat} {current : NodeId}
    (h : fs.Leads ⟨left, current, names.map .name⟩ ⟨left', id, []⟩) :
    ∀ name ∈ names, name.length ≤ nameLimit := by
  intro name mem
  obtain ⟨front, rest, whole⟩ := List.append_of_mem mem
  rw [whole, List.map_append] at h
  obtain ⟨budget, middle, _, second⟩ := leads_append.mp h
  have of_enter {next : NodeId} (enters : fs.enter middle name = .ok (some next)) :
      name.length ≤ nameLimit := by
    obtain ⟨parent, entries, open_, steps⟩ := steps_of_enter enters
    generalize some next = result at steps
    cases steps with
    | here => decide
    | up => decide
    | name proper => exact proper.short
  rcases Relation.ReflTransGen.cases_head second with same | ⟨next, step, _⟩
  · cases same
  · cases step with
    | entry enters => exact of_enter enters
    | link enters => exact of_enter enters

theorem usable_of_resolve (h : fs.resolve p = .ok id) : p.Usable := by
  obtain ⟨named, ⟨left, leads⟩, _⟩ := resolve_iff.mp h
  exact ⟨named, short_of_leads leads⟩

theorem name_of_file (sound : fs.Sound) {content : ByteArray} (h : fs.resolve p = .ok id)
    (file : fs.node? id = some (.file content)) :
    ∃ front name, p.segmentNames = front ++ [name] ∧ Path.IsName name := by
  have not_directory : fs.isDirectoryNode id = false := by simp [isDirectoryNode, file]
  obtain ⟨left, leads⟩ := leadsTo_of_resolve h
  rcases List.eq_nil_or_concat p.segmentNames with none | ⟨front, name, whole⟩
  · rw [none] at leads
    cases leads_of_end leads
    unfold start at not_directory
    split at not_directory
    · rw [sound.root] at not_directory
      cases not_directory
    · rw [sound.home] at not_directory
      cases not_directory
  · rw [List.concat_eq_append] at whole
    refine ⟨front, name, whole, ?_⟩
    have last : name ∈ p.segmentNames := by simp [whole]
    obtain ⟨nonempty, slashFree⟩ := Path.mem_segmentNames last
    rw [whole, List.map_append] at leads
    obtain ⟨budget, middle, _, second⟩ := leads_append.mp leads
    -- A dot, or two of them, would lead to a directory.
    have proper {next : NodeId} (enters : fs.enter middle name = .ok (some next))
        (plain : fs.isDirectoryNode next = false) : Path.IsName name := by
      obtain ⟨parent, entries, open_, steps⟩ := steps_of_enter enters
      generalize found : some next = result at steps
      cases steps with
      | here =>
        cases found
        simp [isDirectoryNode, open_.node] at plain
      | up =>
        cases found
        rw [sound.parents _ _ _ open_.node] at plain
        cases plain
      | name proper => exact ⟨nonempty, slashFree, proper.notHere, proper.notUp⟩
    rcases Relation.ReflTransGen.cases_head second with same | ⟨next, step, rest⟩
    · cases same
    · cases step with
      | entry enters =>
        cases leads_of_end rest
        exact proper enters not_directory
      | link enters link => exact proper enters (by simp [isDirectoryNode, link])

theorem resolve_of_resolveLink (h : fs.resolveLink p = .ok id)
    (plain : ∀ target, fs.node? id ≠ some (.link target)) : fs.resolve p = .ok id := by
  unfold resolveLink at h
  unfold resolve
  unfold resolveWith spot at h ⊢
  cases refused : refuse? p with
  | some e => simp [refused] at h
  | none =>
    rw [refused] at h
    dsimp only at h ⊢
    cases found : fs.follow false linkLimit (fs.start p) p.segments with
    | error e => simp [found] at h
    | ok spot =>
      rw [found] at h
      cases spot with
      | gap => cases h
      | node other =>
        cases h
        obtain ⟨q, leads, arrives⟩ := arrives_of_followed found
        cases arrives with
        | node => rw [follow_node_iff.mpr ⟨_, leads⟩]
        | link _ _ link => exact absurd link (plain _)

end FileSystem

namespace Tour
open FileSystem ModuleTree.Path

variable {fs : FileSystem} {root path directory : Path} {trail : Trail} {isHidden : Bool}
  {top id next : NodeId} {name : Bytes} {entries : List (Bytes × NodeId)}

theorem mem_inOrder {entry : Bytes × NodeId} : entry ∈ inOrder entries ↔ entry ∈ entries :=
  List.mem_mergeSort

theorem increasing_inOrder (distinct : (entries.map Prod.fst).Nodup) :
    (inOrder entries).Pairwise fun a b => a.1 < b.1 := by
  have sorted : (inOrder entries).Pairwise fun a b => decide (a.1 ≤ b.1) = true :=
    List.pairwise_mergeSort
      (fun a b c early late => by
        have first : a.1 ≤ b.1 := by simpa using early
        have second : b.1 ≤ c.1 := by simpa using late
        simpa using List.le_trans first second)
      (fun a b => by simpa using List.le_total a.1 b.1) entries
  have apart : (inOrder entries).Pairwise fun a b => a.1 ≠ b.1 := by
    rw [← List.pairwise_map (f := Prod.fst)]
    exact ((List.mergeSort_perm entries _).map Prod.fst).nodup_iff.mpr distinct
  refine (sorted.and apart).imp fun ⟨le, ne⟩ => ?_
  exact Std.lt_of_le_of_ne (by simpa using le) ne

structure Opened (fs : FileSystem) (directory : Path) (id : NodeId) : Prop where
  resolved : fs.resolve directory = .ok id
  isDirectory : fs.isDirectoryNode id
  unlocked : fs.isLocked id = false

theorem opened_of_readDirectory (h : fs.readDirectory path = .ok entries) :
    ∃ id, Opened fs path id ∧ entries = fs.entries id := by
  unfold readDirectory at h
  split at h
  · cases h
  · rename_i id opened
    obtain ⟨resolved, unlocked⟩ := openFile_ok opened
    split at h
    · rename_i isDirectory
      cases h
      exact ⟨id, ⟨resolved, isDirectory, unlocked⟩, rfl⟩
    · cases h

theorem readDirectory_of_opened (opened : Opened fs path id) :
    fs.readDirectory path = .ok (fs.entries id) := by
  simp [readDirectory, openFile, openNode, opened.resolved, opened.unlocked, opened.isDirectory]

section Identify

theorem identify_plain (plain : ∀ target, fs.node? id ≠ some (.link target)) :
    identify fs root trail path id = .ok id := by
  unfold identify
  split
  · rename_i target link
    exact absurd link (plain target)
  · rfl

theorem identify_ok (h : identify fs root trail path id = .ok next) :
    (∃ target, fs.node? id = some (.link target)) ∧ fs.resolve path = .ok next ∧
        (fs.isDirectoryNode next → trail.find? (·.1 = next) = none) ∨
      (∀ target, fs.node? id ≠ some (.link target)) ∧ next = id := by
  unfold identify at h
  split at h
  · rename_i target link
    refine .inl ⟨⟨target, link⟩, ?_⟩
    split at h
    · cases h
    · rename_i reached resolved
      split at h
      · cases opened : fs.openNode reached with
        | error e => simp [opened] at h
        | ok same =>
          simp only [opened] at h
          split at h
          · cases h
          · rename_i off
            cases h
            exact ⟨(openNode_ok opened).1 ▸ resolved, fun _ => off⟩
      · rename_i plain
        cases h
        exact ⟨resolved, fun isDirectory => absurd isDirectory plain⟩
  · rename_i plain
    cases h
    exact .inr ⟨fun target link => plain target link, rfl⟩

theorem fault_ne_loop {reported ancestor : Path} (blamed : Option Path) (e : IoError) :
    fault fs root blamed e ≠ ⟨reported, .loop ancestor⟩ := by
  unfold fault
  intro same
  have reason := (WalkError.mk.inj same).2
  split at reason <;> cases reason

theorem identify_loop {reported ancestor : Path}
    (h : identify fs root trail path id = .error ⟨reported, .loop ancestor⟩) :
    reported = path ∧ (∃ target, fs.node? id = some (.link target)) ∧
      ∃ next, fs.resolve path = .ok next ∧ fs.isDirectoryNode next ∧
        trail.find? (·.1 = next) = some (next, ancestor) := by
  unfold identify at h
  split at h
  · rename_i target link
    split at h
    · exact absurd (Except.error.inj h) (fault_ne_loop _ _)
    · rename_i reached resolved
      split at h
      · rename_i isDirectory
        cases opened : fs.openNode reached with
        | error e =>
          rw [opened] at h
          exact absurd (Except.error.inj h) (fault_ne_loop _ _)
        | ok same =>
          simp only [opened] at h
          split at h
          · rename_i there ancestor' found
            obtain ⟨rfl, loop⟩ := WalkError.mk.inj (Except.error.inj h)
            cases loop
            have at_ : there = same := by simpa using List.find?_some found
            subst at_
            have reached_ := (openNode_ok opened).1
            subst reached_
            exact ⟨rfl, ⟨target, link⟩, _, resolved, isDirectory, found⟩
          · cases h
      · cases h
  · cases h

end Identify

section Arrive

/-- What comes of an entry that is no directory to be looked into. -/
inductive Passes (fs : FileSystem) (root : Path) (trail : Trail) (path : Path) (next : NodeId) :
    Bool → Visit → Prop where
  | hidden : Passes fs root trail path next true (.hidden path)
  | irregular (notDirectory : fs.isDirectoryNode next = false)
      (notFile : ∀ content, fs.node? next ≠ some (.file content)) :
      Passes fs root trail path next false (.irregular path)
  | file {content : ByteArray} {relative : Path} (file : fs.node? next = some (.file content))
      (stripped : relativeToRoot root trail.isEmpty path = .ok relative) :
      Passes fs root trail path next false (.file ⟨path, relative⟩)

theorem arrive_passed {visit : Visit}
    (h : arrive fs root trail isHidden path id = .ok (.pass visit)) :
    ∃ next, identify fs root trail path id = .ok next ∧
      Passes fs root trail path next isHidden visit := by
  unfold arrive at h
  split at h
  · cases h
  · rename_i next identified
    refine ⟨next, identified, ?_⟩
    split at h
    · rename_i hidden
      cases h
      exact hidden ▸ .hidden
    · rename_i visible
      rw [Bool.not_eq_true] at visible
      subst visible
      split at h
      · split at h <;> cases h
      · rename_i content file
        unfold foundAt at h
        split at h
        · cases h
        · rename_i relative stripped
          cases h
          exact .file file stripped
      · rename_i notDirectory notFile
        cases h
        refine .irregular ?_ fun content file => notFile content file
        unfold isDirectoryNode
        split
        · rename_i parent entries directory
          exact absurd directory (notDirectory parent entries)
        · rfl

theorem arrive_inside (h : arrive fs root trail isHidden path id = .ok (.inside next entries)) :
    isHidden = false ∧ identify fs root trail path id = .ok next ∧
      ∃ there, Opened fs path there ∧ entries = inOrder (fs.entries there) := by
  unfold arrive at h
  split at h
  · cases h
  · rename_i reached identified
    split at h
    · cases h
    · rename_i visible
      split at h
      · split at h
        · cases h
        · rename_i listed read
          cases h
          obtain ⟨there, opened, same⟩ := opened_of_readDirectory read
          exact ⟨by simpa using visible, identified, there, opened, by rw [same]⟩
      · unfold foundAt at h
        split at h <;> cases h
      · cases h

/-- Why a tour is stopped where it arrives. -/
inductive Cause (fs : FileSystem) (root : Path) (trail : Trail) (path : Path) (id : NodeId) :
    Bool → WalkError → Prop where
  | lost {isHidden : Bool} {reason : IoError} (lost : fs.resolve path = .error reason) :
      Cause fs root trail path id isHidden (fault fs root (some path) reason)
  | barred {isHidden : Bool} {target : Path} {next : NodeId} {reason : IoError}
      (link : fs.node? id = some (.link target)) (there : fs.resolve path = .ok next)
      (isDirectory : fs.isDirectoryNode next) (closed : fs.openNode next = .error reason) :
      Cause fs root trail path id isHidden (fault fs root none reason)
  | loop {isHidden : Bool} (ancestor : Path) :
      Cause fs root trail path id isHidden ⟨path, .loop ancestor⟩
  | unlisted {next : NodeId} {reason : IoError}
      (identified : identify fs root trail path id = .ok next)
      (isDirectory : fs.isDirectoryNode next) (closed : fs.readDirectory path = .error reason) :
      Cause fs root trail path id false (fault fs root (some path) reason)
  | unrelated {next : NodeId} {content : ByteArray} {reason : StripError}
      (identified : identify fs root trail path id = .ok next)
      (file : fs.node? next = some (.file content))
      (unstripped : relativeToRoot root trail.isEmpty path = .error reason) :
      Cause fs root trail path id false ⟨path, .unrelated reason⟩

theorem cause_of_identify {e : WalkError} (h : identify fs root trail path id = .error e) :
    Cause fs root trail path id isHidden e := by
  unfold identify at h
  split at h
  · rename_i target link
    split at h
    · rename_i reason lost
      cases h
      exact .lost lost
    · rename_i next there
      split at h
      · rename_i isDirectory
        split at h
        · rename_i reason closed
          cases h
          exact .barred link there isDirectory closed
        · split at h
          · cases h
            exact .loop _
          · cases h
      · cases h
  · cases h

theorem cause_of_arrive {e : WalkError} (h : arrive fs root trail isHidden path id = .error e) :
    Cause fs root trail path id isHidden e := by
  unfold arrive at h
  split at h
  · rename_i identified
    cases h
    exact cause_of_identify identified
  · rename_i next identified
    split at h
    · cases h
    · rename_i visible
      rw [Bool.not_eq_true] at visible
      subst visible
      split at h
      · rename_i parent entries node
        split at h
        · rename_i reason closed
          cases h
          exact .unlisted identified (by simp [isDirectoryNode, node]) closed
        · cases h
      · rename_i content file
        unfold foundAt at h
        split at h
        · rename_i unstripped
          cases h
          exact .unrelated identified file unstripped
        · cases h
      · cases h

/-- What a tour is stopped by: the system, a link that leads back, or a file that is not found
below the root. -/
inductive Stops (fs : FileSystem) (root : Path) (trail : Trail) (path : Path) (id : NodeId) :
    Bool → WalkError → Prop where
  | fault {isHidden : Bool} (blamed : Option Path) (reason : IoError) :
      Stops fs root trail path id isHidden (fault fs root blamed reason)
  | loop {isHidden : Bool} (ancestor : Path) :
      Stops fs root trail path id isHidden ⟨path, .loop ancestor⟩
  | unrelated {next : NodeId} {content : ByteArray} {reason : StripError}
      (identified : identify fs root trail path id = .ok next)
      (file : fs.node? next = some (.file content))
      (unstripped : relativeToRoot root trail.isEmpty path = .error reason) :
      Stops fs root trail path id false ⟨path, .unrelated reason⟩

theorem arrive_stopped {e : WalkError} (h : arrive fs root trail isHidden path id = .error e) :
    Stops fs root trail path id isHidden e := by
  cases cause_of_arrive h with
  | lost | barred | unlisted => exact .fault _ _
  | loop ancestor => exact .loop ancestor
  | unrelated identified file unstripped => exact .unrelated identified file unstripped

theorem arrive_loop {reported ancestor : Path}
    (h : arrive fs root trail isHidden path id = .error ⟨reported, .loop ancestor⟩) :
    identify fs root trail path id = .error ⟨reported, .loop ancestor⟩ := by
  unfold arrive at h
  split at h
  · rename_i e identified
    rw [identified, Except.error.inj h]
  · split at h
    · cases h
    · split at h
      · split at h
        · exact absurd (Except.error.inj h) (fault_ne_loop _ _)
        · cases h
      · unfold foundAt at h
        split at h <;> cases h
      · cases h

end Arrive

section Entries

theorem way_to_child (sound : fs.Sound) (opened : Opened fs directory top)
    (entry : (name, id) ∈ fs.entries top) (usable : (directory.child name).Usable) :
    fs.enter top name = .ok (some id) ∧
      (directory.child name).segments = directory.segmentNames.map .name ++ [.name name] ∧
      ∃ left, fs.Leads ⟨linkLimit, fs.start (directory.child name),
        directory.segmentNames.map .name⟩ ⟨left, top, []⟩ := by
  have valid := sound.named top _ entry
  obtain ⟨parent, node⟩ := node_of_mem_entries entry
  have names := segmentNames_child (p := directory) valid
  have proper : Proper name := ⟨valid.notHere, valid.notUp, usable.short name (by simp [names])⟩
  have start : fs.start (directory.child name) = fs.start directory := by
    rw [FileSystem.start, FileSystem.start, isAbsolute_child valid]
  refine ⟨?_, ?_, start ▸ leadsTo_of_resolve opened.resolved⟩
  · rw [enter_name ⟨node, opened.unlocked⟩ proper, lookup_of_mem entry (sound.distinct top)]
  · rw [segments_eq, endsInSlash_child valid, names]
    simp

theorem resolve_child (sound : fs.Sound) (opened : Opened fs directory top)
    (entry : (name, id) ∈ fs.entries top) (plain : ∀ target, fs.node? id ≠ some (.link target))
    (usable : (directory.child name).Usable) : fs.resolve (directory.child name) = .ok id := by
  obtain ⟨enters, segments, left, leads⟩ := way_to_child sound opened entry usable
  refine resolveWith_iff.mpr ⟨usable.named, follow_node_iff.mpr ⟨left, ?_⟩⟩
  rw [segments]
  exact leads_append.mpr ⟨left, top, leads, .single (.entry enters plain)⟩

theorem resolveLink_child (sound : fs.Sound) (opened : Opened fs directory top)
    (entry : (name, id) ∈ fs.entries top) {target : Path}
    (link : fs.node? id = some (.link target)) (usable : (directory.child name).Usable) :
    fs.resolveLink (directory.child name) = .ok id := by
  obtain ⟨enters, segments, left, leads⟩ := way_to_child sound opened entry usable
  refine resolveWith_iff.mpr ⟨usable.named, ?_⟩
  rw [segments]
  refine (followed_of_leads leads [.name name] (.inr (List.cons_ne_nil _ _))).trans ?_
  simp [Place.followed, Place.more, follow, enters, link]

theorem denotes_of_resolve (sound : fs.Sound) (opened : Opened fs directory top)
    (entry : (name, id) ∈ fs.entries top)
    (resolved : fs.resolve (directory.child name) = .ok next) : fs.Denotes top id next := by
  have valid := sound.named top _ entry
  have reached : fs.Reaches top [name] next :=
    reaches_of_resolve (by simpa using valid) opened.resolved resolved
  cases reached with
  | step entry' denotes rest =>
    cases rest
    cases child_unique sound entry entry'
    exact denotes

theorem denotes_of_identify (sound : fs.Sound) (opened : Opened fs directory top)
    (entry : (name, id) ∈ fs.entries top)
    (identified : identify fs root trail (directory.child name) id = .ok next) :
    fs.Denotes top id next := by
  rcases identify_ok identified with ⟨_, resolved, _⟩ | ⟨plain, same⟩
  · exact denotes_of_resolve sound opened entry resolved
  · subst same
    exact .itself plain

theorem next_of_resolve (sound : fs.Sound) (opened : Opened fs directory top)
    (entry : (name, id) ∈ fs.entries top)
    (identified : identify fs root trail (directory.child name) id = .ok next) {there : NodeId}
    (resolved : fs.resolve (directory.child name) = .ok there) : there = next :=
  denotes_unique (denotes_of_resolve sound opened entry resolved)
    (denotes_of_identify sound opened entry identified)

end Entries

end Tour

end ModuleTree
