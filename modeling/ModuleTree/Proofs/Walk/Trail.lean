import ModuleTree.Proofs.Walk.Arrival
/- How a tour goes. The directories around a place form a trail from the root, along visible
   names and with no link back to a directory on it. In a sound file system no trail comes to a
   directory below itself, so that a tour is what its arrivals make of it and nothing else. -/
namespace ModuleTree.Tour
open FileSystem ModuleTree.Path

/-- A trail leads along these names to this directory. -/
inductive Stands (fs : FileSystem) (root : Path) : List Bytes → Trail → NodeId → Prop where
  | root {top : NodeId} (opened : Opened fs root top) : Stands fs root [] [(top, root)] top
  | child {names : List Bytes} {trail : Trail} {id child next : NodeId} {name : Bytes}
      (above : Stands fs root names trail id) (entry : (name, child) ∈ fs.entries id)
      (visible : isHidden name = false)
      (identified : identify fs root trail (root.below (names ++ [name])) child = .ok next)
      (opened : Opened fs (root.below (names ++ [name])) next) :
      Stands fs root (names ++ [name]) ((next, root.below (names ++ [name])) :: trail) next

/-- The tour of some entries of the directory at `names`, arrival by arrival. -/
inductive Covers (fs : FileSystem) (root : Path) :
    List Bytes → Trail → List (Bytes × NodeId) → Tour → Prop where
  | done {names : List Bytes} {trail : Trail} : Covers fs root names trail [] {}
  | stopped {names : List Bytes} {trail : Trail} {name : Bytes} {child : NodeId}
      {rest : List (Bytes × NodeId)} {e : WalkError}
      (arrives : arrive fs root trail (isHidden name) (root.below (names ++ [name])) child =
        .error e) :
      Covers fs root names trail ((name, child) :: rest) (failed e)
  | passed {names : List Bytes} {trail : Trail} {name : Bytes} {child : NodeId}
      {rest : List (Bytes × NodeId)} {visit : Visit} {after : Tour}
      (arrives : arrive fs root trail (isHidden name) (root.below (names ++ [name])) child =
        .ok (.pass visit))
      (later : Covers fs root names trail rest after) :
      Covers fs root names trail ((name, child) :: rest) (⟨[visit], none⟩ ++ after)
  | entered {names : List Bytes} {trail : Trail} {name : Bytes} {child next : NodeId}
      {entries rest : List (Bytes × NodeId)} {within after : Tour}
      (arrives : arrive fs root trail (isHidden name) (root.below (names ++ [name])) child =
        .ok (.inside next entries))
      (deeper : Covers fs root (names ++ [name]) ((next, root.below (names ++ [name])) :: trail)
        entries within)
      (later : Covers fs root names trail rest after) :
      Covers fs root names trail ((name, child) :: rest) (within ++ after)

variable {fs : FileSystem} {root directory : Path} {trail : Trail} {names : List Bytes}
  {id next child top : NodeId} {name : Bytes} {entries : List (Bytes × NodeId)} {tour : Tour}

section Append

variable {a b : Tour}

theorem append_eq_of_failure {e : WalkError} (h : a.failure = some e) : a ++ b = a := by
  change append a b = a
  simp [append, h]

theorem append_eq_of_none (h : a.failure = none) : a ++ b = ⟨a.visits ++ b.visits, b.failure⟩ := by
  change append a b = _
  simp [append, h]

theorem append_empty (t : Tour) : t ++ {} = t := by
  cases failure : t.failure with
  | some e => exact append_eq_of_failure failure
  | none =>
    rw [append_eq_of_none failure, List.append_nil, ← failure]

theorem mem_visits_append {visit : Visit} (mem : visit ∈ (a ++ b).visits) :
    visit ∈ a.visits ∨ visit ∈ b.visits := by
  cases failure : a.failure with
  | some e =>
    rw [append_eq_of_failure failure] at mem
    exact .inl mem
  | none =>
    rw [append_eq_of_none failure] at mem
    exact List.mem_append.mp mem

theorem failure_append : (a ++ b).failure = a.failure.or b.failure := by
  cases failure : a.failure with
  | some e => rw [append_eq_of_failure failure, failure]; rfl
  | none => rw [append_eq_of_none failure, Option.none_or]

end Append

namespace Stands

theorem opened (stands : Stands fs root names trail id) : Opened fs (root.below names) id := by
  cases stands with
  | root opened => exact opened
  | child _ _ _ _ opened => exact opened

theorem nonempty (stands : Stands fs root names trail id) : trail.isEmpty = false := by
  cases stands <;> rfl

theorem valid (sound : fs.Sound) (stands : Stands fs root names trail id) :
    ∀ name ∈ names, IsName name := by
  induction stands with
  | root => simp
  | child above entry _ _ _ ih =>
    intro name mem
    rcases List.mem_append.mp mem with early | last
    · exact ih name early
    · exact List.mem_singleton.mp last ▸ sound.named _ _ entry

theorem visible (stands : Stands fs root names trail id) :
    ∀ name ∈ names, isHidden name = false := by
  induction stands with
  | root => simp
  | child _ _ visible _ _ ih =>
    intro name mem
    rcases List.mem_append.mp mem with early | last
    · exact ih name early
    · exact List.mem_singleton.mp last ▸ visible

theorem root_some (stands : Stands fs root names trail id) : root.isEmpty = false := by
  induction stands with
  | root opened => exact nonempty_of_unrefused (resolve_iff.mp opened.resolved).1
  | child _ _ _ _ _ ih => exact ih

theorem reaches (sound : fs.Sound) (stands : Stands fs root names trail id)
    (top_ : fs.resolve root = .ok top) : fs.Reaches top names id :=
  reaches_of_resolve (stands.valid sound) top_ stands.opened.resolved

theorem enter (sound : fs.Sound) (stands : Stands fs root names trail id)
    (entry : (name, child) ∈ fs.entries id)
    (arrives : arrive fs root trail (isHidden name) (root.below (names ++ [name])) child =
      .ok (.inside next entries)) :
    Stands fs root (names ++ [name]) ((next, root.below (names ++ [name])) :: trail) next ∧
      entries = inOrder (fs.entries next) := by
  obtain ⟨visible, identified, there, listed, same⟩ := arrive_inside arrives
  have at_ : there = next := by
    rw [below_concat] at identified listed
    exact next_of_resolve sound stands.opened entry identified listed.resolved
  subst at_
  exact ⟨.child stands entry visible identified listed, same⟩

theorem of_mem (stands : Stands fs root names trail id) {path : Path}
    (mem : (next, path) ∈ trail) :
    ∃ front early, front <+: names ∧ path = root.below front ∧ Stands fs root front early next := by
  induction stands with
  | root opened =>
    obtain ⟨rfl, rfl⟩ := Prod.mk.inj (List.mem_singleton.mp mem)
    exact ⟨[], _, List.prefix_rfl, rfl, .root opened⟩
  | child above entry visible identified opened ih =>
    rcases List.mem_cons.mp mem with here | before
    · obtain ⟨rfl, rfl⟩ := Prod.mk.inj here
      exact ⟨_, _, List.prefix_rfl, rfl, .child above entry visible identified opened⟩
    · obtain ⟨front, early, shorter, below, there⟩ := ih before
      exact ⟨front, early, shorter.trans (List.prefix_append _ _), below, there⟩

theorem mem_of_prefix (stands : Stands fs root names trail id) {front : List Bytes}
    (shorter : front <+: names) :
    ∃ early id', Stands fs root front early id' ∧ (id', root.below front) ∈ trail := by
  induction stands with
  | root opened =>
    cases List.prefix_nil.mp shorter
    exact ⟨_, _, .root opened, List.mem_singleton_self _⟩
  | child above entry visible identified opened ih =>
    rcases List.prefix_concat_iff.mp shorter with whole | before
    · subst whole
      exact ⟨_, _, .child above entry visible identified opened, List.mem_cons_self⟩
    · obtain ⟨early, id', there, mem⟩ := ih before
      exact ⟨early, id', there, List.mem_cons_of_mem _ mem⟩

end Stands

section Total

variable {free ahead : List NodeId} {depth : NodeId → Nat}

/-- What the lists that a tour carries say about its trail: a directory that is not free is on
the trail, and one that is not ahead is no deeper than the directory the trail leads to. -/
structure Bearings (fs : FileSystem) (depth : NodeId → Nat) (free ahead : List NodeId)
    (trail : Trail) (id : NodeId) : Prop where
  free : ∀ other < fs.nodes.size, other ∉ free → ∃ path, (other, path) ∈ trail
  ahead : ∀ other < fs.nodes.size, other ∉ ahead → depth other ≤ depth id

theorem eq_of_not_mem_others {other : NodeId} (inside : other < fs.nodes.size)
    (out : other ∉ others fs id) : other = id := by
  by_contra differ
  exact out ((List.mem_erase_of_ne differ).mpr (List.mem_range.mpr inside))

theorem bearings_root (path : Path) :
    Bearings fs depth (others fs id) (others fs id) [(id, path)] id where
  free other inside out := ⟨path, by simp [eq_of_not_mem_others inside out]⟩
  ahead other inside out := Nat.le_of_eq (by rw [eq_of_not_mem_others inside out])

theorem Bearings.fresh (bearings : Bearings fs depth free ahead trail id) (path : Path) :
    Bearings fs depth (free.erase next) (others fs next) ((next, path) :: trail) next where
  free other inside out := by
    by_cases same : other = next
    · exact ⟨path, by simp [same]⟩
    · have before : other ∉ free := fun mem => out ((List.mem_erase_of_ne same).mpr mem)
      obtain ⟨path', mem⟩ := bearings.free other inside before
      exact ⟨path', List.mem_cons_of_mem _ mem⟩
  ahead other inside out := Nat.le_of_eq (by rw [eq_of_not_mem_others inside out])

theorem Bearings.again (bearings : Bearings fs depth free ahead trail id) (path : Path)
    (deeper : depth id < depth next) :
    Bearings fs depth free (ahead.erase next) ((next, path) :: trail) next where
  free other inside out := by
    obtain ⟨path', mem⟩ := bearings.free other inside out
    exact ⟨path', List.mem_cons_of_mem _ mem⟩
  ahead other inside out := by
    by_cases same : other = next
    · exact Nat.le_of_eq (by rw [same])
    · have before : other ∉ ahead := fun mem => out ((List.mem_erase_of_ne same).mpr mem)
      exact Nat.le_of_lt (Nat.lt_of_le_of_lt (bearings.ahead other inside before) deeper)

theorem deeper_of_on_trail {path path' : Path}
    (deeper : ∀ id, ∀ entry ∈ fs.entries id, depth id < depth entry.2)
    (entry : (name, child) ∈ fs.entries id) (mem : (next, path) ∈ trail)
    (identified : identify fs root trail path' child = .ok next)
    (isDirectory : fs.isDirectoryNode next) : depth id < depth next := by
  rcases identify_ok identified with ⟨_, _, off⟩ | ⟨_, same⟩
  · have unlike := List.find?_eq_none.mp (off isDirectory) _ mem
    simp at unlike
  · exact same ▸ deeper id _ entry

/-- In a sound file system a tour never comes to a directory below itself. -/
theorem covers_ofEntries (sound : fs.Sound)
    (deeper : ∀ id, ∀ entry ∈ fs.entries id, depth id < depth entry.2)
    (stands : Stands fs root names trail id) (below : directory = root.below names)
    (inside : ∀ entry ∈ entries, entry ∈ fs.entries id)
    (bearings : Bearings fs depth free ahead trail id) :
    Covers fs root names trail entries
      (ofEntries fs root free ahead trail directory entries) := by
  induction free, ahead, trail, directory, entries using ofEntries.induct fs root
    generalizing names id with
  | case1 free ahead trail directory =>
    rw [ofEntries]
    exact .done
  | case2 free ahead trail directory name child rest path fresh again =>
    rename_i later
    have entry := inside _ List.mem_cons_self
    have after := later stands below (fun e mem => inside e (List.mem_cons_of_mem _ mem)) bearings
    have there : directory.child name = root.below (names ++ [name]) := by
      rw [below_concat, ← below]
    rw [ofEntries, there]
    cases arrived : arrive fs root trail (isHidden name) (root.below (names ++ [name])) child with
    | error e =>
      dsimp only
      rw [append_eq_of_failure rfl]
      exact .stopped arrived
    | ok arrival =>
      cases arrival with
      | pass visit => exact .passed arrived after
      | inside next entries =>
        obtain ⟨deepen, listed⟩ := stands.enter sound entry arrived
        have held : ∀ e ∈ entries, e ∈ fs.entries next := fun e mem =>
          mem_inOrder.mp (listed ▸ mem)
        have isDirectory := deepen.opened.isDirectory
        refine .entered arrived ?_ after
        dsimp only
        have deepen' : Stands fs root (names ++ [name]) ((next, path) :: trail) next := by
          rw [show path = _ from there]
          exact deepen
        by_cases off : next ∈ free
        · rw [dif_pos off, ← there]
          exact fresh next entries off deepen' there held (bearings.fresh _)
        · obtain ⟨path', mem⟩ := bearings.free next (lt_size_of_isDirectoryNode isDirectory) off
          have further : depth id < depth next :=
            deeper_of_on_trail deeper entry mem (arrive_inside arrived).2.1 isDirectory
          have yet : next ∈ ahead := by
            by_contra gone
            have shallow := bearings.ahead next (lt_size_of_isDirectoryNode isDirectory) gone
            omega
          rw [dif_neg off, dif_pos yet, ← there]
          exact again next entries yet deepen' there held (bearings.again _ further)

end Total

inductive ComesTo (fs : FileSystem) (root : Path) (names : List Bytes)
    (entries : List (Bytes × NodeId)) (result : Except WalkError Arrival) : Prop where
  | intro {later : List Bytes} {trail : Trail} {id child : NodeId} {name : Bytes}
      (stands : Stands fs root (names ++ later) trail id) (entry : (name, child) ∈ fs.entries id)
      (arrives : arrive fs root trail (isHidden name) (root.below (names ++ later ++ [name]))
        child = result)
      (first : ∃ entry ∈ entries, (later ++ [name]).head? = some entry.1)

section ComesTo

variable {result : Except WalkError Arrival} {rest : List (Bytes × NodeId)}

theorem ComesTo.here (stands : Stands fs root names trail id)
    (entry : (name, child) ∈ fs.entries id)
    (arrives : arrive fs root trail (isHidden name) (root.below (names ++ [name])) child = result) :
    ComesTo fs root names ((name, child) :: rest) result := by
  rw [← List.append_nil names] at stands arrives
  exact ⟨stands, entry, arrives, _, List.mem_cons_self, rfl⟩

theorem ComesTo.later {entry : Bytes × NodeId} (h : ComesTo fs root names rest result) :
    ComesTo fs root names (entry :: rest) result := by
  obtain ⟨stands, there, arrives, first, mem, same⟩ := h
  exact ⟨stands, there, arrives, first, List.mem_cons_of_mem _ mem, same⟩

theorem ComesTo.deeper (h : ComesTo fs root (names ++ [name]) entries result) :
    ComesTo fs root names ((name, child) :: rest) result := by
  obtain ⟨stands, there, arrives, _⟩ := h
  rw [List.append_assoc names [name], List.singleton_append] at stands arrives
  exact ⟨stands, there, arrives, _, List.mem_cons_self, rfl⟩

theorem Covers.comesTo (sound : fs.Sound) (covers : Covers fs root names trail entries tour)
    (stands : Stands fs root names trail id) (inside : ∀ entry ∈ entries, entry ∈ fs.entries id) :
    (∀ visit ∈ tour.visits, ComesTo fs root names entries (.ok (.pass visit))) ∧
      ∀ e, tour.failure = some e → ComesTo fs root names entries (.error e) := by
  induction covers generalizing id with
  | done => exact ⟨by simp, by simp⟩
  | stopped arrives =>
    refine ⟨by simp [failed], fun e same => ?_⟩
    cases same
    exact .here stands (inside _ List.mem_cons_self) arrives
  | passed arrives later ih =>
    have entry := inside _ List.mem_cons_self
    obtain ⟨visits, failure⟩ := ih stands fun e mem => inside e (List.mem_cons_of_mem _ mem)
    rw [append_eq_of_none rfl]
    refine ⟨fun visit mem => ?_, fun e same => (failure e same).later⟩
    rcases List.mem_cons.mp mem with here | there
    · exact here ▸ .here stands entry arrives
    · exact (visits visit there).later
  | entered arrives deeper later ihDeeper ihLater =>
    have entry := inside _ List.mem_cons_self
    obtain ⟨deepen, listed⟩ := stands.enter sound entry arrives
    obtain ⟨visits, failure⟩ := ihDeeper deepen fun e mem => mem_inOrder.mp (listed ▸ mem)
    obtain ⟨visits', failure'⟩ :=
      ihLater stands fun e mem => inside e (List.mem_cons_of_mem _ mem)
    constructor
    · intro visit mem
      rcases mem_visits_append mem with early | late
      · exact (visits visit early).deeper
      · exact (visits' visit late).later
    · intro e same
      rw [failure_append] at same
      rcases Option.or_eq_some_iff.mp same with early | ⟨_, late⟩
      · exact (failure e early).deeper
      · exact (failure' e late).later

end ComesTo

section Root

inductive CoversRoot (fs : FileSystem) (root : Path) : Tour → Prop where
  | stopped {e : WalkError} (arrives : enterRoot fs root = .error e) :
      CoversRoot fs root (failed e)
  | passed {visit : Visit} (arrives : enterRoot fs root = .ok (.pass visit)) :
      CoversRoot fs root ⟨[visit], none⟩
  | entered {tour : Tour} {id : NodeId} {entries : List (Bytes × NodeId)}
      (arrives : enterRoot fs root = .ok (.inside id entries))
      (covers : Covers fs root [] [(id, root)] entries tour) : CoversRoot fs root tour

theorem resolve_of_identify (link : fs.resolveLink root = .ok id)
    (identified : identify fs root trail root id = .ok next) : fs.resolve root = .ok next := by
  rcases identify_ok identified with ⟨_, resolved, _⟩ | ⟨plain, same⟩
  · exact resolved
  · exact same ▸ resolve_of_resolveLink link plain

theorem enterRoot_inside (h : enterRoot fs root = .ok (.inside id entries)) :
    Opened fs root id ∧ entries = inOrder (fs.entries id) := by
  unfold enterRoot at h
  split at h
  · cases h
  · rename_i start link
    obtain ⟨_, identified, there, opened, same⟩ := arrive_inside h
    have resolved := resolve_of_identify link identified
    cases opened.resolved.symm.trans resolved
    exact ⟨opened, same⟩

theorem enterRoot_passed {visit : Visit} (h : enterRoot fs root = .ok (.pass visit)) :
    ∃ id, fs.resolve root = .ok id ∧ Passes fs root [] root id false visit := by
  unfold enterRoot at h
  split at h
  · cases h
  · rename_i start link
    obtain ⟨id, identified, passes⟩ := arrive_passed h
    exact ⟨id, resolve_of_identify link identified, passes⟩

theorem enterRoot_ne_loop {reported ancestor : Path} :
    enterRoot fs root ≠ .error ⟨reported, .loop ancestor⟩ := by
  intro h
  unfold enterRoot at h
  split at h
  · exact absurd (Except.error.inj h) (fault_ne_loop _ _)
  · obtain ⟨_, _, _, _, _, found⟩ := identify_loop (arrive_loop h)
    cases found

theorem coversRoot_ofRoot (sound : fs.Sound) (root : Path) :
    CoversRoot fs root (ofRoot fs root) := by
  unfold ofRoot
  cases arrives : enterRoot fs root with
  | error e => exact .stopped arrives
  | ok arrival =>
    cases arrival with
    | pass visit => exact .passed arrives
    | inside id entries =>
      obtain ⟨depth, deeper⟩ := sound.ranked
      obtain ⟨opened, listed⟩ := enterRoot_inside arrives
      have held : ∀ entry ∈ entries, entry ∈ fs.entries id := fun e mem =>
        mem_inOrder.mp (listed ▸ mem)
      exact .entered arrives
        (covers_ofEntries sound deeper (.root opened) rfl held (bearings_root root))

variable {roots : List Path}

theorem failure_ofRoots {e : WalkError} (failure : (ofRoots fs roots).failure = some e) :
    ∃ root ∈ roots, (ofRoot fs root).failure = some e := by
  induction roots with
  | nil => cases failure
  | cons root roots ih =>
    rw [ofRoots, failure_append, failure_append] at failure
    rcases Option.or_eq_some_iff.mp failure with first | ⟨_, rest⟩
    · cases first
    · rcases Option.or_eq_some_iff.mp rest with here | ⟨_, later⟩
      · exact ⟨root, List.mem_cons_self, here⟩
      · obtain ⟨root', held, there⟩ := ih later
        exact ⟨root', List.mem_cons_of_mem _ held, there⟩

theorem unfailing_ofRoots (well : (ofRoots fs roots).failure = none) :
    ∀ root ∈ roots, (ofRoot fs root).failure = none := by
  induction roots with
  | nil => simp
  | cons root roots ih =>
    rw [ofRoots, failure_append, Option.or_eq_none_iff, failure_append,
      Option.or_eq_none_iff] at well
    exact List.forall_mem_cons.mpr ⟨well.2.1, ih well.2.2⟩

end Root

end ModuleTree.Tour
