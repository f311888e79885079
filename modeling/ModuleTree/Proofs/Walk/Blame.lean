import Mathlib
import ModuleTree.Proofs.Walk.Relative
/- Whom the error of a walk blames. A walk that is stopped by the system was looking at an entry
   that does not lead anywhere or is a directory that cannot be listed, and blames this entry;
   but for a link below a root, to a directory that cannot be opened, it blames the root. -/
namespace ModuleTree

namespace FileSystem

variable {fs : FileSystem} {p : Path} {id : NodeId}

theorem resolveLink_of_resolve (h : fs.resolve p = .ok id) :
    ∃ there, fs.resolveLink p = .ok there := by
  obtain ⟨named, followed⟩ := resolveWith_iff.mp h
  obtain ⟨left, leads⟩ := follow_node_iff.mp followed
  obtain ⟨there, found⟩ := followed_of_end leads
  exact ⟨there, resolveWith_iff.mpr ⟨named, found⟩⟩

theorem pathExists_eq_false {e : IoError} (h : fs.resolve p = .error e) :
    fs.pathExists p = false := by
  rw [pathExists, h]
  rfl

theorem readDirectory_of_resolve {e : IoError} (h : fs.resolve p = .ok id)
    (closed : fs.openNode id = .error e) : fs.readDirectory p = .error e := by
  simp [readDirectory, openFile, h, closed]

end FileSystem

namespace Tour
open FileSystem ModuleTree.Path

variable {fs : FileSystem} {root path directory : Path} {trail : Trail} {isHidden : Bool}
  {names : List Bytes} {top id child : NodeId} {name : Bytes} {e : WalkError}

/-- How an error of a walk stands to the root and to the path that was looked at. -/
inductive Blames (fs : FileSystem) (root path : Path) : WalkError → Prop where
  | unreached (reason : IoError) (lost : fs.pathExists path = false) :
      Blames fs root path ⟨path, .stat (some path) reason⟩
  | unlisted (reported : Option Path) {reason : IoError} (isDirectory : fs.isDirectory path)
      (closed : fs.readDirectory path = .error reason) :
      Blames fs root path ⟨path, .readDirectory reported reason⟩
  | aside {names : List Bytes} {link : NodeId} {target : Path} {reason : IoError}
      {entries : List (Bytes × NodeId)} (further : names ≠ []) (below : path = root.below names)
      (there : fs.resolveLink path = .ok link) (node : fs.node? link = some (.link target))
      (isDirectory : fs.isDirectory path) (closed : fs.readDirectory path = .error reason)
      (listed : fs.readDirectory root = .ok entries) :
      Blames fs root path ⟨root, .readDirectory none reason⟩
  | loop (ancestor : Path) : Blames fs root path ⟨path, .loop ancestor⟩

theorem blames_of_lost {reason : IoError} (lost : fs.pathExists path = false) :
    Blames fs root path (fault fs root (some path) reason) := by
  have notDirectory : fs.isDirectory path = false := by
    unfold pathExists at lost
    unfold isDirectory
    cases there : fs.resolve path with
    | error => rfl
    | ok => simp [there, Except.isOk, Except.toBool] at lost
  rw [fault, Option.getD_some, notDirectory]
  exact .unreached reason lost

theorem blames_of_unlisted {next : NodeId} {reason : IoError}
    (isDirectory : fs.isDirectoryNode next)
    (same : ∀ there, fs.resolve path = .ok there → there = next)
    (closed : fs.readDirectory path = .error reason) :
    Blames fs root path (fault fs root (some path) reason) := by
  cases there : fs.resolve path with
  | error => exact blames_of_lost (pathExists_eq_false there)
  | ok id =>
    have here : fs.isDirectory path := by
      rw [isDirectory_of_resolve there, same id there]
      exact isDirectory
    rw [fault, Option.getD_some, here]
    exact .unlisted (some path) here closed

theorem Stands.opened_root (stands : Stands fs root names trail id) :
    ∃ top, Opened fs root top := by
  induction stands with
  | root opened => exact ⟨_, opened⟩
  | child _ _ _ _ _ ih => exact ih

theorem Stands.blames (sound : fs.Sound) (stands : Stands fs root names trail id)
    (entry : (name, child) ∈ fs.entries id)
    (arrives : arrive fs root trail (Path.isHidden name) ((root.below names).child name) child =
      .error e) : Blames fs root ((root.below names).child name) e := by
  have met := met_of_entry sound stands entry (by rw [below_concat]; exact arrives)
  have cause := cause_of_arrive arrives
  generalize Path.isHidden name = hidden at cause
  cases cause with
  | lost lost => exact blames_of_lost (pathExists_eq_false lost)
  | barred link there isDirectory closed =>
    obtain ⟨top, opened⟩ := stands.opened_root
    have listable : fs.isDirectory root := by
      rw [isDirectory_of_resolve opened.resolved]
      exact opened.isDirectory
    have inside : fs.isDirectory ((root.below names).child name) := by
      rw [isDirectory_of_resolve there]
      exact isDirectory
    rw [fault, Option.getD_none, listable]
    exact .aside (by simp) (below_concat root names name).symm
      (resolveLink_child sound stands.opened entry link (usable_of_resolve there)) link inside
      (readDirectory_of_resolve there closed) (readDirectory_of_opened opened)
  | unlisted identified isDirectory closed =>
    exact blames_of_unlisted isDirectory
      (fun _ => next_of_resolve sound stands.opened entry identified) closed
  | loop ancestor => exact .loop ancestor
  | unrelated => cases met

theorem blames_of_enterRoot (sound : fs.Sound) (arrives : enterRoot fs root = .error e) :
    Blames fs root root e := by
  have met := met_of_enterRoot sound arrives
  unfold enterRoot at arrives
  split at arrives
  · rename_i reason lost
    cases arrives
    refine blames_of_lost ?_
    cases there : fs.resolve root with
    | error => exact pathExists_eq_false there
    | ok id =>
      obtain ⟨link, found⟩ := resolveLink_of_resolve there
      cases lost.symm.trans found
  · rename_i start link
    cases cause_of_arrive arrives with
    | lost lost => exact blames_of_lost (pathExists_eq_false lost)
    | barred _ there isDirectory closed =>
      have here : fs.isDirectory root := by
        rw [isDirectory_of_resolve there]
        exact isDirectory
      rw [fault, Option.getD_none, here]
      exact .unlisted none here (readDirectory_of_resolve there closed)
    | unlisted identified isDirectory closed =>
      refine blames_of_unlisted isDirectory (fun there resolved => ?_) closed
      exact Except.ok.inj (resolved.symm.trans (resolve_of_identify link identified))
    | loop ancestor => exact .loop ancestor
    | unrelated => cases met

end Tour

/-- The path that the next step of a course looks at, if it looks at one. -/
def Course.facing (c : Course) : Option Path :=
  match c.stack with
  | none => some c.root
  | some (⟨_, directory, (name, _) :: _⟩ :: _) => some (directory.child name)
  | _ => none

namespace Walk
open FileSystem Tour

inductive Turns (fs : FileSystem) (w : Walk) : Advance → Prop where
  | over (failed : w.failed = true) : Turns fs w (.answer none w)
  | done (idle : w.current = none) (last : w.roots = []) : Turns fs w (.answer none w)
  | setOut {root : Path} {roots : List Path} (idle : w.current = none)
      (next : w.roots = root :: roots) : Turns fs w (.on ⟨some ⟨root, none⟩, roots, false⟩)
  | leave {c : Course} (here : w.current = some c) (out : c.advance fs = none) :
      Turns fs w (.on ⟨none, w.roots, false⟩)
  | stop {c : Course} {e : WalkError} (here : w.current = some c)
      (stops : c.advance fs = some (.error e)) :
      Turns fs w (.answer (some (.error e)) ⟨none, w.roots, true⟩)
  | pass {c c' : Course} {visit : Option Visit} (here : w.current = some c)
      (moves : c.advance fs = some (.ok (visit, c')))
      (silent : visit.bind Visit.found? = none) : Turns fs w (.on ⟨some c', w.roots, false⟩)
  | give {c c' : Course} {visit : Option Visit} {found : Found} (here : w.current = some c)
      (moves : c.advance fs = some (.ok (visit, c')))
      (seen : visit.bind Visit.found? = some found) :
      Turns fs w (.answer (some (.ok found)) ⟨some c', w.roots, false⟩)

theorem turns (fs : FileSystem) (w : Walk) : Turns fs w (advance fs w) := by
  unfold advance
  split
  · rename_i failed
    exact .over failed
  · split
    · rename_i idle
      split
      · rename_i last
        exact .done idle last
      · rename_i next
        exact .setOut idle next
    · rename_i here
      split
      · rename_i out
        exact .leave here out
      · rename_i stops
        exact .stop here stops
      · rename_i moves
        dsimp only
        split
        · rename_i seen
          exact .give here moves seen
        · rename_i silent
          exact .pass here moves silent

inductive Steps (fs : FileSystem) : Walk → Walk → Prop where
  | on {w w' : Walk} (step : advance fs w = .on w') : Steps fs w w'
  | found {w w' : Walk} {found : Found} (step : advance fs w = .answer (some (.ok found)) w') :
      Steps fs w w'

def Comes (fs : FileSystem) : Walk → Walk → Prop := Relation.ReflTransGen (Steps fs)

/-- The directories of a course, each led to by the ones around it, with entries of its own left. -/
inductive Seated (fs : FileSystem) (root : Path) : List OpenDirectory → Prop where
  | out : Seated fs root []
  | inside {id : NodeId} {names : List Bytes} {left : List (Bytes × NodeId)}
      {around : List OpenDirectory}
      (stands : Tour.Stands fs root names
        (Course.trail (⟨id, root.below names, left⟩ :: around)) id)
      (held : ∀ entry ∈ left, entry ∈ fs.entries id) (outer : Seated fs root around) :
      Seated fs root (⟨id, root.below names, left⟩ :: around)

def Settled (fs : FileSystem) (c : Course) : Prop :=
  ∀ stack, c.stack = some stack → Seated fs c.root stack

structure Underway (fs : FileSystem) (roots : List Path) (w : Walk) : Prop where
  ahead : ∀ root ∈ w.roots, root ∈ roots
  root : ∀ c, w.current = some c → c.root ∈ roots
  settled : ∀ c, w.current = some c → Settled fs c

variable {fs : FileSystem} {root path : Path} {roots : List Path} {w w' : Walk} {c c' : Course}
  {stack : List OpenDirectory} {e : WalkError} {visit : Option Visit} {items : List Item}

section Invariant

theorem settled_land {arrival : Arrival} (outer : Seated fs root stack)
    (deeper : ∀ id entries, arrival = .inside id entries →
      Seated fs root (⟨id, path, entries⟩ :: stack))
    (landed : Course.land root stack path arrival = (visit, c')) :
    c'.root = root ∧ Settled fs c' := by
  cases arrival with
  | pass seen =>
    cases landed
    refine ⟨rfl, ?_⟩
    rintro _ ⟨⟩
    exact outer
  | inside id entries =>
    cases landed
    refine ⟨rfl, ?_⟩
    rintro _ ⟨⟩
    exact deeper id entries rfl

theorem settled_step (sound : fs.Sound) (settled : Settled fs c)
    (step : c.advance fs = some (.ok (visit, c'))) : c'.root = c.root ∧ Settled fs c' := by
  obtain ⟨root, stack⟩ := c
  cases stack with
  | none =>
    cases arrives : enterRoot fs root with
    | error e => simp [Course.advance, arrives, Except.map] at step
    | ok arrival =>
      have landed : Course.land root [] root arrival = (visit, c') := by
        simpa [Course.advance, arrives, Except.map] using step
      refine settled_land .out (fun id entries inside => ?_) landed
      obtain ⟨opened, listed⟩ := enterRoot_inside (inside ▸ arrives)
      exact .inside (.root opened) (fun e mem => mem_inOrder.mp (listed ▸ mem)) .out
  | some stack =>
    have seated : Seated fs root stack := settled stack rfl
    cases seated with
    | out => cases step
    | @inside id names left around stands held outer =>
      cases left with
      | nil =>
        cases step
        refine ⟨rfl, ?_⟩
        rintro _ ⟨⟩
        exact outer
      | cons entry left =>
        obtain ⟨name, child⟩ := entry
        obtain ⟨entry, later⟩ := List.forall_mem_cons.mp held
        have inside : Seated fs root (⟨id, root.below names, left⟩ :: around) :=
          .inside stands later outer
        cases arrives : arrive fs root (Course.trail (⟨id, root.below names, left⟩ :: around))
            (Path.isHidden name) ((root.below names).child name) child with
        | error e => simp [Course.advance, arrives, Except.map] at step
        | ok arrival =>
          have landed : Course.land root (⟨id, root.below names, left⟩ :: around)
              ((root.below names).child name) arrival = (visit, c') := by
            simpa [Course.advance, arrives, Except.map] using step
          refine settled_land inside (fun next entries entered => ?_) landed
          rw [entered, ← Path.below_concat] at arrives
          obtain ⟨deepen, listed⟩ := stands.enter sound entry arrives
          rw [← Path.below_concat]
          exact .inside deepen (fun e mem => mem_inOrder.mp (listed ▸ mem)) inside

theorem underway_ofRoots (fs : FileSystem) (roots : List Path) :
    Underway fs roots (.ofRoots roots) :=
  ⟨fun _ mem => mem, by rintro _ ⟨⟩, by rintro _ ⟨⟩⟩

theorem underway_course (sound : fs.Sound) (underway : Underway fs roots w)
    (here : w.current = some c) (moves : c.advance fs = some (.ok (visit, c'))) :
    Underway fs roots ⟨some c', w.roots, false⟩ := by
  obtain ⟨same, settled⟩ := settled_step sound (underway.settled _ here) moves
  refine ⟨underway.ahead, ?_, ?_⟩
  · rintro _ ⟨⟩
    exact same ▸ underway.root _ here
  · rintro _ ⟨⟩
    exact settled

theorem underway_step (sound : fs.Sound) (underway : Underway fs roots w) (step : Steps fs w w') :
    Underway fs roots w' := by
  have turns := turns fs w
  cases step with
  | on step =>
    rw [step] at turns
    cases turns with
    | setOut _ next =>
      obtain ⟨first, later⟩ := List.forall_mem_cons.mp (next ▸ underway.ahead)
      refine ⟨later, ?_, ?_⟩
      · rintro _ ⟨⟩
        exact first
      · rintro _ ⟨⟩ _ ⟨⟩
    | leave => exact ⟨underway.ahead, by rintro _ ⟨⟩, by rintro _ ⟨⟩⟩
    | pass here moves => exact underway_course sound underway here moves
  | found step =>
    rw [step] at turns
    cases turns with
    | give here moves => exact underway_course sound underway here moves

theorem underway_of_comes (sound : fs.Sound) (comes : Comes fs (.ofRoots roots) w) :
    Underway fs roots w := by
  induction comes with
  | refl => exact underway_ofRoots fs roots
  | tail _ step ih => exact underway_step sound ih step

end Invariant

section Stop

/-- A walk over roots comes to look at a path below one of them, and what it sees there ends it. -/
inductive StopsAt (fs : FileSystem) (roots : List Path) (e : WalkError) : Path → Path → Prop where
  | intro {w w' : Walk} {c : Course} {path : Path} (comes : Comes fs (.ofRoots roots) w)
      (current : w.current = some c) (facing : c.facing = some path)
      (stops : advance fs w = .answer (some (.error e)) w') : StopsAt fs roots e c.root path

theorem stopped_of_answer (stops : advance fs w = .answer (some (.error e)) w') :
    w' = ⟨none, w.roots, true⟩ ∧ ∃ c, w.current = some c ∧ c.advance fs = some (.error e) := by
  have turns := turns fs w
  rw [stops] at turns
  cases turns with
  | stop here ends => exact ⟨rfl, _, here, ends⟩

theorem blames_of_course (sound : fs.Sound) (settled : Settled fs c)
    (stops : c.advance fs = some (.error e)) :
    ∃ path, c.facing = some path ∧ Tour.Blames fs c.root path e := by
  obtain ⟨root, stack⟩ := c
  cases stack with
  | none =>
    cases arrives : enterRoot fs root with
    | error reason =>
      have same : reason = e := by simpa [Course.advance, arrives, Except.map] using stops
      exact ⟨root, rfl, blames_of_enterRoot sound (same ▸ arrives)⟩
    | ok arrival => simp [Course.advance, arrives, Except.map] at stops
  | some stack =>
    have seated : Seated fs root stack := settled stack rfl
    cases seated with
    | out => cases stops
    | @inside id names left around stands held outer =>
      cases left with
      | nil => cases stops
      | cons entry left =>
        obtain ⟨name, child⟩ := entry
        cases arrives : arrive fs root (Course.trail (⟨id, root.below names, left⟩ :: around))
            (Path.isHidden name) ((root.below names).child name) child with
        | error reason =>
          have same : reason = e := by simpa [Course.advance, arrives, Except.map] using stops
          rw [same] at arrives
          exact ⟨_, rfl, Stands.blames sound stands (held _ List.mem_cons_self) arrives⟩
        | ok arrival => simp [Course.advance, arrives, Except.map] at stops

theorem stop_of_answers (answers : Answers fs w) :
    ∃ v, Comes fs w v ∧ advance fs v = .answer (w.next fs).1 (w.next fs).2 := by
  induction answers with
  | now step => exact ⟨_, .refl, by rw [next_answer step]; exact step⟩
  | on step _ ih =>
    obtain ⟨v, comes, stops⟩ := ih
    exact ⟨v, .head (.on step) comes, by rw [next_on step]; exact stops⟩

theorem comes_of_error (gives : Gives fs w items) (mem : .error e ∈ items) :
    ∃ v v', Comes fs w v ∧ advance fs v = .answer (some (.error e)) v' := by
  induction gives with
  | done => cases mem
  | @more w w' item items answers some later ih =>
    obtain ⟨v, comes, stops⟩ := stop_of_answers answers
    rw [some] at stops
    rcases List.mem_cons.mp mem with here | after
    · exact ⟨v, w', comes, here ▸ stops⟩
    · cases item with
      | error reason =>
        obtain ⟨rfl, _⟩ := stopped_of_answer stops
        cases gives_unique later (.nothing rfl)
        cases after
      | ok found =>
        obtain ⟨u, u', onward, stops'⟩ := ih after
        exact ⟨u, u', comes.trans (.head (.found stops) onward), stops'⟩

/-- An error of the system, or of a link that leads back, is one of the path that the walk looks
at when it stops, and says of it what is so; unless this path is a link below a root, to a directory
that cannot be opened. Then the root is blamed, although it was listed. -/
theorem error_blames_path_or_root (sound : fs.Sound) (gives : Gives fs (.ofRoots roots) items)
    (mem : .error e ∈ items) :
    ∃ root ∈ roots, ∃ path, StopsAt fs roots e root path ∧ Tour.Blames fs root path e := by
  obtain ⟨w, w', comes, stops⟩ := comes_of_error gives mem
  obtain ⟨_, c, current, ends⟩ := stopped_of_answer stops
  have underway := underway_of_comes sound comes
  obtain ⟨path, facing, blames⟩ := blames_of_course sound (underway.settled c current) ends
  exact ⟨c.root, underway.root c current, path, .intro comes current facing stops, blames⟩

def barredLink : FileSystem where
  nodes := #[.directory 0 [(Text.encode "l", 1), (Text.encode "t", 2)], .directory 0 [],
    .directory 0 [(Text.encode "a", 3), (Text.encode "l", 4)], .file "x".toUTF8,
    .link (.ofString "../l")]
  root := 0
  home := 0
  locked := [1]

def barredLinkItems : List Item :=
  [.ok ⟨.ofString "t/a", .ofString "a"⟩,
    .error ⟨.ofString "t", .readDirectory none .permissionDenied⟩]

theorem barredLink_sound : barredLink.Sound :=
  FileSystem.sound_of_numbered (by decide) (by decide) (by decide +kernel)

theorem barredLink_gives : Gives barredLink (.ofRoots [.ofString "t"]) barredLinkItems := by
  have items : (Tour.ofRoots barredLink [.ofString "t"]).items = barredLinkItems := by cbv
  exact items ▸ gives_items barredLink_sound _

theorem link_to_locked_blames_root :
    barredLink.Sound ∧ Gives barredLink (.ofRoots [.ofString "t"]) barredLinkItems ∧
      .error ⟨.ofString "t", .readDirectory none .permissionDenied⟩ ∈ barredLinkItems ∧
      ∃ path, StopsAt barredLink [.ofString "t"]
          ⟨.ofString "t", .readDirectory none .permissionDenied⟩ (.ofString "t") path ∧
        Tour.Blames barredLink (.ofString "t") path
          ⟨.ofString "t", .readDirectory none .permissionDenied⟩ := by
  have mem : .error ⟨.ofString "t", .readDirectory none .permissionDenied⟩ ∈ barredLinkItems :=
    .tail _ (.head _)
  obtain ⟨root, held, blames⟩ := error_blames_path_or_root barredLink_sound barredLink_gives mem
  cases List.mem_singleton.mp held
  exact ⟨barredLink_sound, barredLink_gives, mem, blames⟩

/-- The walk stops at the link. The root that is blamed is a directory that can be listed. -/
theorem listed_root_blamed_for_link :
    barredLink.Sound ∧ Gives barredLink (.ofRoots [.ofString "t"]) barredLinkItems ∧
      .error ⟨.ofString "t", .readDirectory none .permissionDenied⟩ ∈ barredLinkItems ∧
      barredLink.readDirectory (.ofString "t") =
        .ok [(Text.encode "a", 3), (Text.encode "l", 4)] ∧
      StopsAt barredLink [.ofString "t"] ⟨.ofString "t", .readDirectory none .permissionDenied⟩
        (.ofString "t") (.ofString "t/l") ∧
      Path.ofString "t" ≠ .ofString "t/l" := by
  let start : Walk := ⟨some ⟨.ofString "t", none⟩, [], false⟩
  let inside (left : List (Bytes × NodeId)) : Walk :=
    ⟨some ⟨.ofString "t", some [⟨2, .ofString "t", left⟩]⟩, [], false⟩
  have first : advance barredLink start =
      .on (inside [(Text.encode "a", 3), (Text.encode "l", 4)]) := by cbv
  have second : advance barredLink (inside [(Text.encode "a", 3), (Text.encode "l", 4)]) =
      .answer (some (.ok ⟨.ofString "t/a", .ofString "a"⟩)) (inside [(Text.encode "l", 4)]) := by
    cbv
  have third : advance barredLink (inside [(Text.encode "l", 4)]) =
      .answer (some (.error ⟨.ofString "t", .readDirectory none .permissionDenied⟩))
        ⟨none, [], true⟩ := by cbv
  have comes : Comes barredLink (.ofRoots [.ofString "t"]) (inside [(Text.encode "l", 4)]) :=
    .head (.on rfl) (.head (.on first) (.head (.found second) .refl))
  exact ⟨barredLink_sound, barredLink_gives, .tail _ (.head _), by cbv,
    .intro comes rfl (by cbv) third, by decide +kernel⟩

end Stop

end Walk

end ModuleTree
