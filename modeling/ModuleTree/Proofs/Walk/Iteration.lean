import ModuleTree.Proofs.FileSystem.Numbered
import ModuleTree.Proofs.Walk.Trail
import ModuleTree.Walk.Discovery
import ModuleTree.Walk.Iterator
/- The items of a walk. Over a sound file system, whatever its links lead to, a walk that is
   asked again and again gives the files of the tour of its roots, then the failure of the tour
   if it has one, and then nothing more. -/
namespace ModuleTree

namespace Tour

variable {a b : Tour} {later : List Walk.Item}

def items (t : Tour) : List Walk.Item := t.files.map .ok ++ (t.failure.map .error).toList

theorem ok_mem_items {t : Tour} {found : Found} : .ok found ∈ t.items ↔ found ∈ t.files := by
  simp [items]

theorem error_mem_items {t : Tour} {e : WalkError} : .error e ∈ t.items ↔ t.failure = some e := by
  simp [items]

theorem failure_eq_none {t : Tour} : t.failure = none ↔ ∀ e, .error e ∉ t.items := by
  simp [Option.eq_none_iff_forall_ne_some, error_mem_items]

def before (t : Tour) (later : List Walk.Item) : List Walk.Item :=
  t.files.map .ok ++ match t.failure with
    | some e => [.error e]
    | none => later

theorem before_nil (t : Tour) : t.before [] = t.items := by
  unfold before items
  cases t.failure <;> rfl

theorem files_append (h : a.failure = none) : (a ++ b).files = a.files ++ b.files := by
  rw [append_eq_of_none h, files, List.filterMap_append]
  rfl

theorem before_append : (a ++ b).before later = a.before (b.before later) := by
  cases failure : a.failure with
  | some e => simp [append_eq_of_failure failure, before, failure]
  | none =>
    unfold before
    rw [files_append failure, failure_append, failure, Option.none_or, List.map_append,
      List.append_assoc]

theorem before_visit (visit : Visit) :
    (⟨[visit], none⟩ : Tour).before later = ((Visit.found? visit).map .ok).toList ++ later := by
  cases visit <;> rfl

end Tour

namespace Walk
open Tour ModuleTree.Path

inductive Answers (fs : FileSystem) : Walk → Prop where
  | now {w w' : Walk} {item : Option Item} (step : advance fs w = .answer item w') : Answers fs w
  | on {w w' : Walk} (step : advance fs w = .on w') (later : Answers fs w') : Answers fs w

/-- Asked again and again, a walk answers each time. It gives these items and then none. -/
inductive Gives (fs : FileSystem) : Walk → List Item → Prop where
  | done {w w' : Walk} (answers : Answers fs w) (none : w.next fs = (none, w')) : Gives fs w []
  | more {w w' : Walk} {item : Item} {items : List Item} (answers : Answers fs w)
      (some : w.next fs = (some item, w')) (later : Gives fs w' items) :
      Gives fs w (item :: items)

variable {fs : FileSystem} {root : Path} {roots : List Path} {w w' : Walk}
  {items items' : List Item}

theorem gives_unique (first : Gives fs w items) (second : Gives fs w items') : items = items' := by
  induction first generalizing items' with
  | done _ none =>
    cases second with
    | done => rfl
    | more _ some => cases none.symm.trans some
  | more _ some later ih =>
    cases second with
    | done _ none => cases some.symm.trans none
    | more _ some' later' =>
      cases some.symm.trans some'
      rw [ih later']

section Steps

theorem next_on (step : advance fs w = .on w') : w.next fs = w'.next fs := by
  rw [next, repeatM_eq_of_monadTail, repeatM.body, step]
  rfl

theorem next_answer {item : Option Item} (step : advance fs w = .answer item w') :
    w.next fs = (item, w') := by
  rw [next, repeatM_eq_of_monadTail, repeatM.body, step]
  rfl

theorem Gives.nothing (step : advance fs w = .answer none w') : Gives fs w [] :=
  .done (.now step) (next_answer step)

theorem Gives.item {item : Item} (step : advance fs w = .answer (some item) w')
    (later : Gives fs w' items) : Gives fs w (item :: items) :=
  .more (.now step) (next_answer step) later

theorem Gives.on (step : advance fs w = .on w') (later : Gives fs w' items) :
    Gives fs w items := by
  cases later with
  | done answers none => exact .done (.on step answers) ((next_on step).trans none)
  | more answers some later => exact .more (.on step answers) ((next_on step).trans some) later

theorem Gives.failed {item : Item} (step : advance fs w = .answer (some item) ⟨none, roots, true⟩) :
    Gives fs w [item] :=
  .item step (.nothing rfl)

theorem Gives.visit {visit : Visit}
    (step : advance fs w = match Visit.found? visit with
      | some found => .answer (some (.ok found)) w'
      | none => .on w') (later : Gives fs w' items) :
    Gives fs w (((Visit.found? visit).map .ok).toList ++ items) := by
  cases seen : Visit.found? visit with
  | none =>
    rw [seen] at step
    exact later.on step
  | some found =>
    rw [seen] at step
    exact .item step later

def standing (root : Path) (stack : List OpenDirectory) (roots : List Path) : Walk :=
  ⟨some ⟨root, some stack⟩, roots, false⟩

variable {stack around : List OpenDirectory} {id next child : NodeId} {path : Path} {name : Bytes}
  {left entries : List (Bytes × NodeId)} {visit : Visit} {e : WalkError}

theorem advance_out :
    advance fs (standing root (⟨id, path, []⟩ :: around) roots) =
      .on (standing root around roots) := rfl

theorem advance_stopped
    (arrives : arrive fs root (Course.trail (⟨id, path, left⟩ :: around)) (isHidden name)
      (path.child name) child = .error e) :
    advance fs (standing root (⟨id, path, (name, child) :: left⟩ :: around) roots) =
      .answer (some (.error e)) ⟨none, roots, true⟩ := by
  simp [advance, standing, Course.advance, arrives, Except.map]

theorem advance_passed
    (arrives : arrive fs root (Course.trail (⟨id, path, left⟩ :: around)) (isHidden name)
      (path.child name) child = .ok (.pass visit)) :
    advance fs (standing root (⟨id, path, (name, child) :: left⟩ :: around) roots) =
      match Visit.found? visit with
      | some found =>
        .answer (some (.ok found)) (standing root (⟨id, path, left⟩ :: around) roots)
      | none => .on (standing root (⟨id, path, left⟩ :: around) roots) := by
  cases seen : Visit.found? visit <;>
    simp only [advance, standing, Course.advance, arrives, Except.map, Course.land,
      Bool.false_eq_true, if_false, Option.bind_some, seen]

theorem advance_entered
    (arrives : arrive fs root (Course.trail (⟨id, path, left⟩ :: around)) (isHidden name)
      (path.child name) child = .ok (.inside next entries)) :
    advance fs (standing root (⟨id, path, (name, child) :: left⟩ :: around) roots) =
      .on (standing root (⟨next, path.child name, entries⟩ :: ⟨id, path, left⟩ :: around)
        roots) := by
  simp [advance, standing, Course.advance, arrives, Except.map, Course.land]

end Steps

theorem gives_of_covers {names : List Bytes} {trail : Trail} {entries : List (Bytes × NodeId)}
    {tour : Tour} (covers : Covers fs root names trail entries tour) {id : NodeId}
    {around : List OpenDirectory}
    (here : Course.trail (⟨id, root.below names, entries⟩ :: around) = trail)
    (after : tour.failure = none →
      Gives fs (standing root (⟨id, root.below names, []⟩ :: around) roots) items) :
    Gives fs (standing root (⟨id, root.below names, entries⟩ :: around) roots)
      (tour.before items) := by
  induction covers generalizing id around items with
  | done => exact after rfl
  | stopped arrives =>
    subst here
    rw [below_concat] at arrives
    exact .failed (advance_stopped arrives)
  | passed arrives later ih =>
    rw [before_append, before_visit]
    have onward := ih here fun well => after (by simp [failure_append, well])
    subst here
    rw [below_concat] at arrives
    exact .visit (advance_passed arrives) onward
  | @entered names trail name child next entries rest within tail arrives _ _ ihDeeper ihLater =>
    rw [before_append]
    subst here
    rw [below_concat] at arrives ihDeeper
    refine .on (advance_entered arrives) (ihDeeper rfl fun inner => ?_)
    refine .on advance_out (ihLater rfl fun outer => after ?_)
    rw [failure_append, inner, outer]
    rfl

theorem gives_items (sound : fs.Sound) (roots : List Path) :
    Gives fs (.ofRoots roots) (Tour.ofRoots fs roots).items := by
  induction roots with
  | nil => exact .nothing (rfl : advance fs (.ofRoots []) = .answer none (.ofRoots []))
  | cons root roots ih =>
    have whole : (Tour.ofRoots fs (root :: roots)).items =
        (Tour.ofRoot fs root).before (Tour.ofRoots fs roots).items := by
      rw [← before_nil, Tour.ofRoots, before_append, before_visit, before_append, before_nil]
      rfl
    have begins : advance fs (.ofRoots (root :: roots)) = .on ⟨some ⟨root, none⟩, roots, false⟩ :=
      rfl
    have out : Gives fs (standing root [] roots) (Tour.ofRoots fs roots).items := .on rfl ih
    rw [whole]
    refine .on begins ?_
    have covers := coversRoot_ofRoot sound root
    generalize Tour.ofRoot fs root = tour at covers
    cases covers with
    | @stopped e arrives =>
      have step : advance fs ⟨some ⟨root, none⟩, roots, false⟩ =
          .answer (some (.error e)) ⟨none, roots, true⟩ := by
        simp [advance, Course.advance, arrives, Except.map]
      exact .failed step
    | @passed visit arrives =>
      rw [before_visit]
      refine .visit ?_ out
      cases seen : Visit.found? visit <;>
        simp only [advance, standing, Course.advance, arrives, Except.map, Course.land,
          Bool.false_eq_true, if_false, Option.bind_some, seen]
    | @entered _ id entries arrives covers =>
      have step : advance fs ⟨some ⟨root, none⟩, roots, false⟩ =
          .on (standing root [⟨id, root, entries⟩] roots) := by
        simp only [advance, standing, Course.advance, arrives, Except.map, Course.land,
          Bool.false_eq_true, if_false, Option.bind_none]
      exact .on step (gives_of_covers covers rfl fun _ => .on advance_out out)

end Walk

theorem Tour.count_eq_foldlM (t : Tour) :
    t.count = t.items.foldlM (fun n item => item.map fun _ => n + 1) 0 := by
  have counted (found : List Found) (n : Nat) :
      (found.map Except.ok : List Walk.Item).foldlM (fun n item => item.map fun _ => n + 1) n =
        .ok (n + found.length) := by
    induction found generalizing n with
    | nil => rfl
    | cons _ rest ih =>
      rw [List.map_cons, List.foldlM_cons]
      refine (ih (n + 1)).trans ?_
      rw [List.length_cons, Nat.add_right_comm, Nat.add_assoc]
  rw [items, List.foldlM_append, counted, count]
  cases t.failure with
  | some e => rfl
  | none => simp [pure, Except.pure, bind, Except.bind]

namespace Discovery

def assign (destination : Path) (settings : Settings) (taken : Taken) :
    Walk.Item → Except WalkError Taken
  | .error e => .error e
  | .ok found =>
    let job := Job.ofFound destination settings found
    match place taken job with
    | .fresh output => .ok ((output, job) :: taken)
    | .again => .ok taken
    | .collision e => .error e

theorem collect_eq_foldlM (destination : Path) (settings : Settings) (failure : Option WalkError)
    (taken : Taken) (log : List Notice) (visits : List Visit) :
    (collect destination settings failure taken log visits).1 =
      ((Tour.items ⟨visits, failure⟩).foldlM (assign destination settings) taken).map
        fun taken => taken.reverse.map (·.2) := by
  induction visits generalizing taken log with
  | nil => cases failure <;> rfl
  | cons visit rest ih =>
    cases visit with
    | file found =>
      have more : Tour.items ⟨.file found :: rest, failure⟩ =
          .ok found :: Tour.items ⟨rest, failure⟩ := rfl
      rw [more, List.foldlM_cons, collect, assign]
      cases place taken (Job.ofFound destination settings found) with
      | fresh output => exact ih ..
      | again => exact ih ..
      | collision e => rfl
    | _ => exact ih ..

end Discovery

namespace Walk

/-- The walk ends, whatever links there are, and with it the count and the discovery of jobs,
which take one item after another. -/
theorem walk_ends {fs : FileSystem} (sound : fs.Sound) (roots : List Path) :
    ∃ items, Gives fs (.ofRoots roots) items ∧
      (Tour.ofRoots fs roots).count = items.foldlM (fun n item => item.map fun _ => n + 1) 0 ∧
      ∀ destination settings, Discovery.jobs fs roots destination settings =
        (items.foldlM (Discovery.assign destination settings) []).map
          fun taken => taken.reverse.map (·.2) :=
  ⟨(Tour.ofRoots fs roots).items, gives_items sound roots, Tour.count_eq_foldlM _,
    fun destination settings => Discovery.collect_eq_foldlM destination settings _ [] [] _⟩

def cyclic : FileSystem where
  nodes := #[
    .directory 0 [(Text.encode "out", 1), (Text.encode "top", 2)],
    .directory 0 [(Text.encode "in", 3)],
    .directory 0 [(Text.encode "a.js", 4), (Text.encode "out", 5), (Text.encode "self", 6),
      (Text.encode "there", 7), (Text.encode "to", 8), (Text.encode "up", 9)],
    .link (.ofString "../top"),
    .file "a".toUTF8,
    .link (.ofString "../out"),
    .link (.ofString "self"),
    .link (.ofString "to"),
    .link (.ofString "there"),
    .link (.ofString "..")]
  root := 0
  home := 0

theorem walk_ends_among_cycles :
    cyclic.Sound ∧ ∃ items, Gives cyclic (.ofRoots [.ofString "top", .ofString "out"]) items ∧
      (Tour.ofRoots cyclic [.ofString "top", .ofString "out"]).count =
        items.foldlM (fun n item => item.map fun _ => n + 1) 0 ∧
      ∀ destination settings,
        Discovery.jobs cyclic [.ofString "top", .ofString "out"] destination settings =
          (items.foldlM (Discovery.assign destination settings) []).map
            fun taken => taken.reverse.map (·.2) := by
  have sound : cyclic.Sound :=
    FileSystem.sound_of_numbered (by decide) (by decide) (by decide +kernel)
  exact ⟨sound, walk_ends sound _⟩

end Walk

end ModuleTree
