import Mathlib
import ModuleTree.Proofs.Walk.Blame
/- A walk that is asked again and again, whatever it answers. It takes the roots one after another
   from the front; it gives files until it comes to its end or to an error, of which it gives one at
   most; and from then on it stays as it is and gives nothing. -/
namespace ModuleTree.Walk

def bound? (w : Walk) : Option Path :=
  w.current.bind fun course => if course.stack.isNone then some course.root else none

/-- On its way to the next answer a walk sets out for these roots. -/
inductive SetsOut (fs : FileSystem) : Walk → List Path → Prop where
  | answer {w w' : Walk} {item : Option Item} (step : advance fs w = .answer item w') :
      SetsOut fs w []
  | on {w w' : Walk} {begun : List Path} (step : advance fs w = .on w')
      (later : SetsOut fs w' begun) : SetsOut fs w (w'.bound?.toList ++ begun)

/-- Calls for the next item, one after another: the roots that were set out for, what was answered,
and where the walk stands then. -/
inductive Asked (fs : FileSystem) (start : Walk) :
    List Path → List (Option Item) → Walk → Prop where
  | unasked : Asked fs start [] [] start
  | again {started begun : List Path} {answers : List (Option Item)} {item : Option Item}
      {w w' : Walk} (before : Asked fs start started answers w) (sets : SetsOut fs w begun)
      (call : w.next fs = (item, w')) : Asked fs start (started ++ begun) (answers ++ [item]) w'

structure Rests (w : Walk) : Prop where
  idle : w.current = none
  spent : w.failed = true ∨ w.roots = []

inductive Leaves : Option Item → Walk → Prop where
  | found {found : Found} {w : Walk} (well : w.failed = false) : Leaves (some (.ok found)) w
  | stopped {e : WalkError} {w : Walk} (failed : w.failed = true) (idle : w.current = none) :
      Leaves (some (.error e)) w
  | ended {w : Walk} (well : w.failed = false) (idle : w.current = none) (last : w.roots = []) :
      Leaves none w

/-- All that a walk has answered, and how that leaves it: files, then an error or the end, and then
nothing any more. -/
inductive Answered : List (Option Item) → Walk → Prop where
  | going {found : List Found} {w : Walk} (well : w.failed = false) :
      Answered (found.map fun one => some (.ok one)) w
  | stopped {found : List Found} {e : WalkError} {rest : List (Option Item)} {w : Walk}
      (nothing : ∀ answer ∈ rest, answer = none) (failed : w.failed = true)
      (idle : w.current = none) :
      Answered (found.map (fun one => some (.ok one)) ++ some (.error e) :: rest) w
  | ended {found : List Found} {rest : List (Option Item)} {w : Walk}
      (nothing : ∀ answer ∈ rest, answer = none) (well : w.failed = false)
      (idle : w.current = none) (last : w.roots = []) :
      Answered (found.map (fun one => some (.ok one)) ++ none :: rest) w

variable {fs : FileSystem} {roots started begun : List Path} {answers more : List (Option Item)}
  {item : Option Item} {items : List Item} {w w' start : Walk} {c c' : Course}
  {visit : Option Visit}

section Calls

theorem stack_of_advance (moves : c.advance fs = some (.ok (visit, c'))) :
    c'.stack ≠ none := by
  have landed {reached : Except WalkError Tour.Arrival} {root path : Path}
      {stack : List OpenDirectory}
      (lands : some (reached.map (Course.land root stack path)) = some (.ok (visit, c'))) :
      c'.stack ≠ none := by
    cases reached with
    | error e => cases lands
    | ok arrival => cases arrival <;> cases lands <;> simp
  unfold Course.advance at moves
  split at moves
  · exact landed moves
  · cases moves
  · cases moves
    simp
  · exact landed moves

theorem taken_of_on (step : advance fs w = .on w') :
    w.roots = w'.bound?.toList ++ w'.roots ∧ w'.failed = false := by
  have turns := turns fs w
  rw [step] at turns
  cases turns with
  | setOut _ next => exact ⟨next, rfl⟩
  | leave => exact ⟨rfl, rfl⟩
  | @pass c c' visit here moves silent =>
    have come := stack_of_advance moves
    exact ⟨by simp [bound?, come], rfl⟩

theorem leaves_of_setsOut (sets : SetsOut fs w begun) (call : w.next fs = (item, w'))
    (well : w.failed = false) : w.roots = begun ++ w'.roots ∧ Leaves item w' := by
  induction sets with
  | @answer w _ _ step =>
    have turns := turns fs w
    rw [step] at turns
    cases (next_answer step).symm.trans call
    cases turns with
    | «over» failed => cases failed.symm.trans well
    | done idle last => exact ⟨rfl, .ended well idle last⟩
    | stop => exact ⟨rfl, .stopped rfl rfl⟩
    | give => exact ⟨rfl, .found rfl⟩
  | on step _ ih =>
    -- A step to more steps never fails the walk, so the call goes on from one that is well.
    obtain ⟨taken, well⟩ := taken_of_on step
    obtain ⟨rest, leaves⟩ := ih ((next_on step).symm.trans call) well
    exact ⟨by rw [taken, rest, List.append_assoc], leaves⟩

theorem setsOut_of_answers (answers : Answers fs w) : ∃ begun, SetsOut fs w begun := by
  induction answers with
  | now step => exact ⟨[], .answer step⟩
  | on step _ ih =>
    obtain ⟨begun, later⟩ := ih
    exact ⟨_, .on step later⟩

end Calls

section Rest

theorem advance_of_rests (rests : Rests w) : advance fs w = .answer none w := by
  unfold advance
  rcases rests.spent with failed | last
  · rw [if_pos failed]
  · simp [rests.idle, last]

theorem next_of_rests (rests : Rests w) : w.next fs = (none, w) :=
  next_answer (advance_of_rests rests)

theorem silent_of_rests (rests : Rests w) (sets : SetsOut fs w begun)
    (call : w.next fs = (item, w')) : begun = [] ∧ item = none ∧ w' = w := by
  cases (next_of_rests rests).symm.trans call
  cases sets with
  | answer => exact ⟨rfl, rfl, rfl⟩
  | on step => cases (advance_of_rests rests).symm.trans step

theorem asked_of_rests (rests : Rests w) : Asked fs w begun more w' ↔
    begun = [] ∧ (∀ answer ∈ more, answer = none) ∧ w' = w := by
  constructor
  · intro asked
    induction asked with
    | unasked => exact ⟨rfl, by simp, rfl⟩
    | again _ sets call ih =>
      obtain ⟨rfl, nothing, rfl⟩ := ih
      obtain ⟨rfl, rfl, rfl⟩ := silent_of_rests rests sets call
      exact ⟨rfl, List.forall_mem_append.mpr ⟨nothing, by simp⟩, rfl⟩
  · rintro ⟨rfl, nothing, rfl⟩
    induction more using List.reverseRecOn with
    | nil => exact .unasked
    | append_singleton more answer ih =>
      obtain ⟨early, here⟩ := List.forall_mem_append.mp nothing
      obtain rfl := here answer (by simp)
      exact .again (ih early) (.answer (advance_of_rests rests)) (next_of_rests rests)

end Rest

section History

theorem Answered.rests (answered : Answered answers w)
    (past : ∃ answer ∈ answers, ∀ found, answer ≠ some (.ok found)) : Rests w := by
  cases answered with
  | going =>
    obtain ⟨answer, mem, other⟩ := past
    obtain ⟨found, _, rfl⟩ := List.mem_map.mp mem
    exact absurd rfl (other found)
  | stopped _ failed idle => exact ⟨idle, .inl failed⟩
  | ended _ _ idle last => exact ⟨idle, .inr last⟩

theorem Answered.again (answered : Answered answers w) (sets : SetsOut fs w begun)
    (call : w.next fs = (item, w')) :
    w.roots = begun ++ w'.roots ∧ Answered (answers ++ [item]) w' := by
  cases answered with
  | @going found w well =>
    obtain ⟨taken, leaves⟩ := leaves_of_setsOut sets call well
    refine ⟨taken, ?_⟩
    cases leaves with
    | @found one _ well =>
      have longer : Answered ((found ++ [one]).map fun one => some (.ok one)) w' := .going well
      rwa [List.map_append] at longer
    | stopped failed idle => exact .stopped (by simp) failed idle
    | ended well idle last => exact .ended (by simp) well idle last
  | stopped nothing failed idle =>
    obtain ⟨rfl, rfl, rfl⟩ := silent_of_rests ⟨idle, .inl failed⟩ sets call
    rw [List.append_assoc, List.cons_append]
    exact ⟨rfl, .stopped (List.forall_mem_append.mpr ⟨nothing, by simp⟩) failed idle⟩
  | ended nothing well idle last =>
    obtain ⟨rfl, rfl, rfl⟩ := silent_of_rests ⟨idle, .inr last⟩ sets call
    rw [List.append_assoc, List.cons_append]
    exact ⟨rfl, .ended (List.forall_mem_append.mpr ⟨nothing, by simp⟩) well idle last⟩

theorem answered_of_asked (asked : Asked fs (.ofRoots roots) started answers w) :
    roots = started ++ w.roots ∧ Answered answers w := by
  induction asked with
  | unasked =>
    have none : Answered (([] : List Found).map fun one => some (.ok one)) (.ofRoots roots) :=
      .going rfl
    exact ⟨rfl, none⟩
  | again _ sets call ih =>
    obtain ⟨whole, answered⟩ := ih
    obtain ⟨taken, answered⟩ := answered.again sets call
    exact ⟨by rw [whole, taken, List.append_assoc], answered⟩

theorem gives_of_asked (sound : fs.Sound) (asked : Asked fs (.ofRoots roots) started answers w) :
    ∃ items, Gives fs w items := by
  induction asked with
  | unasked => exact ⟨_, gives_items sound roots⟩
  | @again _ _ answers item w w' before sets call ih =>
    obtain ⟨items, gives⟩ := ih
    cases gives with
    | done _ none =>
      cases none.symm.trans call
      have answered := ((answered_of_asked before).2.again sets call).2
      have rests : Rests w' := answered.rests ⟨Option.none, by simp, by simp⟩
      exact ⟨[], .nothing (advance_of_rests rests)⟩
    | more _ some later =>
      cases some.symm.trans call
      exact ⟨_, later⟩

theorem setsOut_of_gives (gives : Gives fs w items) : ∃ begun, SetsOut fs w begun := by
  cases gives with
  | done answers => exact setsOut_of_answers answers
  | more answers => exact setsOut_of_answers answers

/-- How a walk over roots stands after some calls. What it has set out for and what is ahead of it
are the roots, in order; it has given files and then one error at most; and once it has given
something else than a file, it never gives anything again, and stays as it is. -/
structure Fused (fs : FileSystem) (roots started : List Path) (answers : List (Option Item))
    (w : Walk) : Prop where
  idle : w.failed = true → w.current = none
  ahead : roots = started ++ w.roots
  answered : Answered answers w
  lasting : (∃ answer ∈ answers, ∀ found, answer ≠ some (.ok found)) → ∀ begun more w',
    Asked fs w begun more w' ↔ begun = [] ∧ (∀ answer ∈ more, answer = none) ∧ w' = w

/-- However often a walk has been asked, it is fused, and it has stopped at its first error. Over a
sound file system it can be asked again. -/
theorem fused_and_stopped_at_first_error
    (asked : Asked fs (.ofRoots roots) started answers w) :
    Fused fs roots started answers w ∧ (fs.Sound → ∃ begun, SetsOut fs w begun) := by
  obtain ⟨ahead, answered⟩ := answered_of_asked asked
  refine ⟨⟨fun failed => ?_, ahead, answered, fun past begun more w' => ?_⟩, fun sound => ?_⟩
  · cases answered with
    | going well => cases well.symm.trans failed
    | stopped _ _ idle => exact idle
    | ended _ well => cases well.symm.trans failed
  · exact asked_of_rests (answered.rests past)
  · obtain ⟨items, gives⟩ := gives_of_asked sound asked
    exact setsOut_of_gives gives

def outerAndInner : FileSystem where
  nodes := #[.directory 0 [(Text.encode "a.js", 1), (Text.encode "lib", 2)], .file "x".toUTF8,
    .directory 0 [(Text.encode "b.js", 3)], .file "y".toUTF8]
  root := 0
  home := 0

def missingRoots : List Path := [.ofString "a.js", .ofString "gone", .ofString "lib"]

def missingRootAnswers : List (Option Item) :=
  [some (.ok ⟨.ofString "a.js", .ofString "a.js"⟩),
    some (.error ⟨.ofString "gone", .stat (some (.ofString "gone")) .notFound⟩), none]

theorem walk_fused_behind_missing_root :
    Asked outerAndInner (.ofRoots missingRoots) [.ofString "a.js", .ofString "gone"]
        missingRootAnswers ⟨none, [.ofString "lib"], true⟩ ∧
      Fused outerAndInner missingRoots [.ofString "a.js", .ofString "gone"] missingRootAnswers
        ⟨none, [.ofString "lib"], true⟩ ∧
      ∃ begun, SetsOut outerAndInner ⟨none, [.ofString "lib"], true⟩ begun := by
  let toFirst : Walk :=
    ⟨some ⟨.ofString "a.js", none⟩, [.ofString "gone", .ofString "lib"], false⟩
  let atFirst : Walk :=
    ⟨some ⟨.ofString "a.js", some []⟩, [.ofString "gone", .ofString "lib"], false⟩
  let pastFirst : Walk := ⟨none, [.ofString "gone", .ofString "lib"], false⟩
  let toSecond : Walk := ⟨some ⟨.ofString "gone", none⟩, [.ofString "lib"], false⟩
  have begins : advance outerAndInner (.ofRoots missingRoots) = .on toFirst := rfl
  have first : advance outerAndInner toFirst =
      .answer (some (.ok ⟨.ofString "a.js", .ofString "a.js"⟩)) atFirst := by cbv
  have leaves : advance outerAndInner atFirst = .on pastFirst := rfl
  have goesOn : advance outerAndInner pastFirst = .on toSecond := rfl
  have second : advance outerAndInner toSecond =
      .answer (some (.error ⟨.ofString "gone", .stat (some (.ofString "gone")) .notFound⟩))
        ⟨none, [.ofString "lib"], true⟩ := by cbv
  have rests : Rests ⟨none, [.ofString "lib"], true⟩ := ⟨rfl, .inl rfl⟩
  have asked : Asked outerAndInner (.ofRoots missingRoots) [.ofString "a.js", .ofString "gone"]
      missingRootAnswers ⟨none, [.ofString "lib"], true⟩ := by
    have one := Asked.unasked.again (.on begins (.answer first))
      ((next_on begins).trans (next_answer first))
    have two := one.again (.on leaves (.on goesOn (.answer second)))
      ((next_on leaves).trans ((next_on goesOn).trans (next_answer second)))
    exact two.again (.answer (advance_of_rests rests)) (next_of_rests rests)
  have sound : outerAndInner.Sound :=
    FileSystem.sound_of_numbered (by decide) (by decide) (by decide +kernel)
  obtain ⟨fused, again⟩ := fused_and_stopped_at_first_error asked
  exact ⟨asked, fused, again sound⟩

end History

end ModuleTree.Walk
