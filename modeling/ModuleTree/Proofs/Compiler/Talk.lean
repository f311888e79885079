import Mathlib.Data.List.Basic
import ModuleTree.Compiler.Talk
import ModuleTree.Proofs.Compiled
/- Talking to a child comes to an end, and to the same end however the parties take turns: nobody
   waits for ever, nothing goes round in circles, and what comes of it is told by the child alone. -/
namespace ModuleTree

theorem Command.conclude_eq (c : Command) (r : Request) (outcome : Shell.Outcome) (sent : Sent) :
    c.conclude r outcome sent = c.answer r outcome := by
  unfold conclude
  split
  · rename_i failed
    rw [answer, if_pos failed]
  · cases sent <;> rfl

namespace Talk
open ModuleTree.Action State

variable {x : Talk} {s s' : State} {outlet : Outlet} {bytes chunk rest : Bytes}

/-- What holds in every state: nothing is lost on the way to the child or from it, the input ends
only behind the whole source, and the child is waited for to its end. -/
structure Sound (x : Talk) (s : State) : Prop where
  input : s.received ++ s.input ++ s.unsent = x.source
  outlets : ∀ outlet, s.gathered outlet ++ s.pipe outlet ++ printed outlet s.actions =
    printed outlet x.child.actions
  whole : s.sent = some .whole → s.unsent = []
  broken : s.sent = some .broken → s.listens = false
  sawEnd : s.sawEnd → s.received = x.source
  exited : s.exited → s.actions = []
  reads : readsToEnd x.child.actions → s.sawEnd ∨ s.inputOpen ∧ readsToEnd s.actions
  gone : s.awaiting ≠ .gathering → s.exited ∧ ∀ outlet, s.pipe outlet = []
  joins : ∀ outcome, s.awaiting = .joining outcome → outcome = x.child.outcome
  returns : ∀ result, s.awaiting = .returned result →
    result = x.command.answer x.request x.child.outcome

theorem sound_start : Sound x x.start where
  input := rfl
  outlets _ := rfl
  whole := nofun
  broken := nofun
  sawEnd := nofun
  exited := nofun
  reads reads := .inr ⟨rfl, reads⟩
  gone away := absurd rfl away
  joins := nofun
  returns := nofun

namespace Sound

theorem running (sound : Sound x s) {action : Action} {later : List Action}
    (actions : s.actions = action :: later) : s.exited = false := by
  cases exited : s.exited with
  | false => rfl
  | true => cases actions.symm.trans (sound.exited exited)

theorem stays (sound : Sound x s) {action : Action} {later left : List Action}
    (actions : s.actions = action :: later) : s.exited → left = [] := by
  intro exited
  cases (sound.running actions).symm.trans exited

theorem awaited (sound : Sound x s) {action : Action} {later : List Action}
    (actions : s.actions = action :: later) : s.awaiting = .gathering := by
  by_contra away
  cases (sound.running actions).symm.trans (sound.gone away).1

theorem input_of_sawEnd (sound : Sound x s) (saw : s.sawEnd) : s.input = [] := by
  have all := sound.input
  rw [← sound.sawEnd saw, List.append_assoc, List.append_right_eq_self] at all
  exact (List.append_eq_nil_iff.mp all).1

theorem received_of_ended (sound : Sound x s) (listens : s.listens) (input : s.input = [])
    (ended : s.sent.isSome) : s.received = x.source := by
  obtain ⟨sent, how⟩ := Option.isSome_iff_exists.mp ended
  cases sent with
  | whole =>
    have all := sound.input
    rwa [input, sound.whole how, List.append_nil, List.append_nil] at all
  | broken =>
    rw [sound.broken how] at listens
    cases listens

end Sound

theorem sound_step (sound : Sound x s) (step : x.Step s s') : Sound x s' := by
  cases step with
  | send writing unsent some_ listens room =>
    have input := sound.input
    rw [unsent] at input
    exact { sound with
      input := by simpa using input
      whole := fun sent => by cases writing.symm.trans sent }
  | refuse writing unsent gone => exact { sound with whole := nofun, broken := fun _ => gone }
  | finish writing unsent => exact { sound with whole := fun _ => unsent, broken := nofun }
  | @receive most taken rest later actions open_ input some_ few =>
    have all := sound.input
    rw [input] at all
    exact { sound with
      input := by simpa using all
      outlets := fun outlet => by simpa [actions, printed] using sound.outlets outlet
      sawEnd := fun saw => by
        have none := sound.input_of_sawEnd saw
        simp_all
      exited := sound.stays actions
      reads := by simpa [actions, readsToEnd] using sound.reads }
  | @receiveOn taken rest later actions open_ input some_ =>
    have all := sound.input
    rw [input] at all
    exact { sound with
      input := by simpa using all
      sawEnd := fun saw => by
        have none := sound.input_of_sawEnd saw
        simp_all }
  | @seeEnd action later actions reads open_ input ended =>
    have listens : s.listens := by simp [State.listens, open_, sound.running actions]
    have silent (outlet : Outlet) : printed outlet later = printed outlet s.actions := by
      rw [actions]
      rcases reads with rfl | ⟨most, rfl⟩ <;> rfl
    exact { sound with
      outlets := fun outlet => by simpa only [silent] using sound.outlets outlet
      sawEnd := fun _ => sound.received_of_ended listens input ended
      exited := sound.stays actions
      reads := fun _ => .inl rfl }
  | @pass action later actions passes =>
    have silent (outlet : Outlet) : printed outlet later = printed outlet s.actions := by
      rw [actions]
      cases action with
      | print own bytes =>
        rw [printed, List.isEmpty_iff.mp passes, ite_self, List.nil_append]
      | _ => rfl
    exact { sound with
      outlets := fun outlet => by simpa only [silent] using sound.outlets outlet
      exited := sound.stays actions
      reads := fun reads => by
        refine (sound.reads reads).imp_right fun ⟨open_, later⟩ => ⟨open_, ?_⟩
        rw [actions] at later
        cases action with
        | readAll => simp [State.passes, open_] at passes
        | closeInput => cases later
        | _ => exact later }
  | closeInput actions =>
    exact { sound with
      outlets := fun outlet => by simpa [actions, printed] using sound.outlets outlet
      broken := fun _ => rfl
      exited := sound.stays actions
      reads := fun reads => by
        rcases sound.reads reads with saw | ⟨_, later⟩
        · exact .inl saw
        · rw [actions] at later
          cases later }
  | @print own chunk rest later actions some_ room =>
    exact { sound with
      outlets := fun outlet => by
        have all := sound.outlets outlet
        rw [actions] at all
        by_cases same : outlet = own
        · subst same
          simpa [State.printing, printed] using all
        · simpa [State.printing, printed, same, Ne.symm same] using all
      exited := sound.stays actions
      reads := by simpa [State.printing, actions, readsToEnd] using sound.reads
      gone := fun away => absurd (sound.awaited actions) away }
  | exit actions running =>
    exact { sound with
      broken := fun _ => by simp [State.listens]
      exited := fun _ => actions
      gone := fun away => ⟨rfl, (sound.gone away).2⟩ }
  | @gather own chunk rest at_ pipe some_ =>
    exact { sound with
      outlets := fun outlet => by
        have all := sound.outlets outlet
        by_cases same : outlet = own
        · subst same
          rw [pipe] at all
          simpa [State.gathering] using all
        · simpa [State.gathering, same] using all
      gone := fun away => absurd at_ away }
  | ended at_ exited empty =>
    exact { sound with
      gone := fun _ => ⟨exited, empty⟩
      joins := nofun
      returns := nofun }
  | reap at_ exited =>
    have away : s.awaiting ≠ .gathering := by rw [at_]; nofun
    have all (outlet : Outlet) : s.gathered outlet = printed outlet x.child.actions := by
      simpa [(sound.gone away).2 outlet, sound.exited exited, printed] using sound.outlets outlet
    exact { sound with
      gone := fun _ => sound.gone away
      joins := fun outcome joins => by
        cases joins
        rw [all, all]
        rfl
      returns := nofun }
  | @join outcome sent at_ ended =>
    have away : s.awaiting ≠ .gathering := by rw [at_]; nofun
    exact { sound with
      gone := fun _ => sound.gone away
      joins := nofun
      returns := fun result returns => by
        cases returns
        rw [Command.conclude_eq, sound.joins outcome at_] }

theorem sound_of_reachable (reach : x.Reachable s) : Sound x s := by
  induction reach with
  | start => exact sound_start
  | step _ step ih => exact sound_step ih step

theorem writer_moves (writing : s.sent = none)
    (idle : s.unsent = [] ∨ s.listens = false ∨ s.input = []) : ∃ s', x.Step s s' := by
  cases unsent : s.unsent with
  | nil => exact ⟨_, .finish writing unsent⟩
  | cons byte rest =>
    cases listens : s.listens with
    | false => exact ⟨_, .refuse writing (by simp [unsent]) listens⟩
    | true =>
      have input : s.input = [] := by simpa [unsent, listens] using idle
      have room : s.input.length + [byte].length ≤ x.inputRoom := by
        rw [input]
        exact x.inputRoom_pos
      have one : s.unsent = [byte] ++ rest := unsent
      exact ⟨_, .send writing one (by simp) listens room⟩

theorem reader_moves {action : Action} {later : List Action}
    (actions : s.actions = action :: later)
    (reads : action = .readAll ∨ ∃ most, action = .read (most + 1)) (open_ : s.inputOpen) :
    ∃ s', x.Step s s' := by
  cases input : s.input with
  | cons byte rest =>
    have some_ : [byte] ≠ [] := by simp
    rcases reads with rfl | ⟨most, rfl⟩
    · exact ⟨_, .receiveOn actions open_ input some_⟩
    · exact ⟨_, .receive actions open_ input some_ (by simp)⟩
  | nil =>
    cases sent : s.sent with
    | none => exact writer_moves sent (.inr (.inr input))
    | some how => exact ⟨_, .seeEnd actions reads open_ input (by rw [sent]; rfl)⟩

theorem child_moves (running : s.exited = false) (empty : ∀ outlet, s.pipe outlet = []) :
    ∃ s', x.Step s s' := by
  cases actions : s.actions with
  | nil => exact ⟨_, .exit actions running⟩
  | cons action later =>
    by_cases passes : s.passes action
    · exact ⟨_, .pass actions passes⟩
    cases action with
    | read most =>
      simp only [State.passes, Bool.or_eq_true, decide_eq_true_eq, not_or] at passes
      obtain ⟨some_, open_⟩ := passes
      refine reader_moves actions (.inr ⟨most - 1, ?_⟩) (by simpa using open_)
      rw [Nat.sub_add_cancel (Nat.pos_of_ne_zero some_)]
    | readAll => exact reader_moves actions (.inl rfl) (by simpa [State.passes] using passes)
    | closeInput => exact ⟨_, .closeInput actions⟩
    | print outlet bytes =>
      cases bytes with
      | nil => simp [State.passes] at passes
      | cons byte rest =>
        have room : (s.pipe outlet).length + [byte].length ≤ x.room outlet := by
          rw [empty]
          exact x.room_pos outlet
        have one : s.actions = .print outlet ([byte] ++ rest) :: later := actions
        exact ⟨_, .print one (by simp) room⟩

/-- Some party can take a step until there is a result. The parties are asked in the order in which
they wait for each other: the one that gathers, the child, the one that writes. -/
theorem moves_until_returned (sound : Sound x s) (pending : s.result? = none) :
    ∃ s', x.Step s s' := by
  cases at_ : s.awaiting with
  | gathering =>
    by_cases empty : ∀ outlet, s.pipe outlet = []
    · cases exited : s.exited with
      | false => exact child_moves exited empty
      | true => exact ⟨_, .ended at_ exited empty⟩
    · obtain ⟨outlet, printed⟩ := not_forall.mp empty
      have all : s.pipe outlet = s.pipe outlet ++ [] := (List.append_nil _).symm
      exact ⟨_, .gather at_ all printed⟩
  | reaping => exact ⟨_, .reap at_ (sound.gone (by rw [at_]; nofun)).1⟩
  | joining outcome =>
    cases sent : s.sent with
    | some how => exact ⟨_, .join at_ sent⟩
    | none =>
      have exited := (sound.gone (by rw [at_]; nofun)).1
      exact writer_moves sent (.inr (.inl (by simp [State.listens, exited])))
  | returned result => simp [State.result?, at_] at pending

def effort : List Action → Nat
  | .print _ bytes :: later => 1 + 2 * bytes.length + effort later
  | _ :: later => 1 + effort later
  | [] => 0

theorem effort_lt (action : Action) (later : List Action) : effort later < effort (action :: later) := by
  cases action <;> simp only [effort] <;> omega

def remaining : Awaiting → Nat
  | .gathering => 3
  | .reaping => 2
  | .joining _ => 1
  | .returned _ => 0

/-- What is ahead of all parties. A byte counts twice before it is in a pipe, and once inside. -/
def ahead (s : State) : Nat :=
  2 * s.unsent.length + (if s.sent.isNone then 1 else 0) + s.input.length +
    effort s.actions + (if s.exited then 0 else 1) +
    (s.pipe .output).length + (s.pipe .errors).length + remaining s.awaiting

theorem ahead_lt_of_step (step : x.Step s s') : ahead s' < ahead s := by
  cases step with
  | send writing unsent some_ =>
    have := List.length_pos_iff.mpr some_
    simp only [ahead, unsent, List.length_append]
    omega
  | refuse writing | finish writing =>
    simp [ahead, writing]
  | @receive most taken rest later actions open_ input some_ =>
    have := List.length_pos_iff.mpr some_
    have := effort_lt (.read most) later
    simp only [ahead, actions, input, List.length_append]
    omega
  | receiveOn actions open_ input some_ =>
    have := List.length_pos_iff.mpr some_
    simp only [ahead, input, List.length_append]
    omega
  | @seeEnd action later actions | @pass action later actions =>
    have := effort_lt action later
    simp only [ahead, actions]
    omega
  | closeInput actions => simp [ahead, actions, effort]
  | @print outlet chunk rest later actions some_ =>
    have := List.length_pos_iff.mpr some_
    cases outlet <;>
      simp [ahead, State.printing, actions, effort] <;> omega
  | exit actions running => simp [ahead, running]
  | @gather outlet chunk rest at_ pipe some_ =>
    have := List.length_pos_iff.mpr some_
    cases outlet <;> simp [ahead, State.gathering, pipe, at_] <;> omega
  | ended at_ | reap at_ | join at_ => simp [ahead, at_, remaining]

theorem ahead_of_course {course : Nat → State} (goes : ∀ n, x.Step (course n) (course (n + 1)))
    (n : Nat) : ahead (course n) + n ≤ ahead (course 0) := by
  induction n with
  | zero => exact Nat.le_refl _
  | succ n ih =>
    have := ahead_lt_of_step (goes n)
    omega

/-- Every party can go on until there is a result, and there is one after so many steps. The child
gets the source from its beginning, and all of it before it sees the end. What comes of it is what
is made of the child's ending and of all that it prints, and of nothing else. -/
theorem never_stuck_and_told_by_child (x : Talk) :
    (∀ s, x.Reachable s → s.result? = none → ∃ s', x.Step s s') ∧
      (¬∃ course : Nat → State, course 0 = x.start ∧ ∀ n, x.Step (course n) (course (n + 1))) ∧
      (∀ s, x.Reachable s → s.received <+: x.source ∧ (s.sawEnd → s.received = x.source)) ∧
      ∀ s result, x.Reachable s → s.result? = some result →
        (readsToEnd x.child.actions → s.sawEnd ∧ s.received = x.source) ∧
          result = x.command.compile (fun _ _ _ => .ok x.child.outcome) x.request ∧
          (x.child.ending ≠ .exit 0 → result =
            .error (.exit (x.command.line x.request) (printed .errors x.child.actions))) ∧
          (x.child.ending = .exit 0 →
            match Text.decode ⟨(printed .output x.child.actions).toArray⟩ with
            | .error fault => result = .error (.invalidUtf8 fault)
            | .ok text =>
              match Compiled.ofJson text with
              | .error fault => result = .error (.response fault text)
              | .ok compiled => result = .ok compiled) := by
  refine ⟨fun s reach => moves_until_returned (sound_of_reachable reach), ?_, ?_, ?_⟩
  · rintro ⟨course, _, goes⟩
    have := ahead_of_course goes (ahead (course 0) + 1)
    omega
  · intro s reach
    have sound := sound_of_reachable reach
    refine ⟨⟨s.input ++ s.unsent, ?_⟩, sound.sawEnd⟩
    rw [← List.append_assoc, sound.input]
  · intro s result reach returned
    have sound := sound_of_reachable reach
    have at_ : s.awaiting = .returned result := by
      unfold State.result? at returned
      split at returned
      · cases returned
        assumption
      · cases returned
    obtain rfl := sound.returns result at_
    refine ⟨fun reads => ?_, rfl, fun failed => ?_, fun succeeded => ?_⟩
    · rcases sound.reads reads with saw | ⟨_, later⟩
      · exact ⟨saw, sound.sawEnd saw⟩
      · rw [sound.exited (sound.gone (by rw [at_]; nofun)).1] at later
        cases later
    · exact if_pos failed
    · have answered : x.command.answer x.request x.child.outcome = _ :=
        if_neg (not_not.mpr succeeded)
      rw [answered]
      simp only [Child.outcome]
      cases Text.decode ⟨(printed .output x.child.actions).toArray⟩ with
      | error fault => rfl
      | ok text =>
        simp only
        cases Compiled.ofJson text <;> rfl

def hastyAnswer : String := "\x7b\"code\":\"\"\x7d"

def hasty : Talk where
  command := ⟨"hasty", []⟩
  request := ⟨"ab", none, {}⟩
  child := ⟨[.print .output (Text.encode hastyAnswer)], .exit 0⟩
  inputRoom := 1
  room _ := 16
  inputRoom_pos := by decide
  room_pos _ := by decide

theorem hasty_returns :
    ∃ s result, hasty.Reachable s ∧ s.sent = some .broken ∧ s.result? = some result := by
  let answer := Text.encode hastyAnswer
  have source : hasty.start.unsent = [0x61] ++ [0x62] := by decide +kernel
  have sent := Reachable.start.step (.send rfl source (by decide) rfl (by decide))
  have printed := sent.step (@Step.print _ _ .output answer [] [] rfl (by decide) (by decide))
  have passed := printed.step (.pass rfl rfl)
  have exited := passed.step (.exit rfl rfl)
  have refused := exited.step (.refuse rfl (by decide) rfl)
  have gathered := refused.step (@Step.gather _ _ .output answer [] rfl rfl (by decide))
  have ended := gathered.step (.ended rfl rfl (by rintro (_ | _) <;> rfl))
  have reaped := ended.step (.reap rfl rfl)
  exact ⟨_, _, reaped.step (.join rfl rfl), rfl, rfl⟩

theorem ofJson_hastyAnswer : Compiled.ofJson hastyAnswer = .ok ⟨"", []⟩ := by
  have none : Json.Blanks [] := by decide
  have quotes := Json.quotes_writeString
  have code : Json.Entry "code" (Json.writeString "") "\"code\":\"\"".toList :=
    .mk none (quotes "code") none none (Json.written_of_quotes (quotes "")) none
  have told : Compiled.Told [("code", Json.writeString "")] ⟨"", []⟩ :=
    ⟨⟨_, rfl, quotes ""⟩, .inl ⟨rfl, rfl⟩⟩
  exact (Compiled.ofJson_iff none (.some (.one code))).mpr ⟨told, none⟩

theorem never_stuck_and_told_by_hasty_child :
    ∃ s, hasty.Reachable s ∧ s.sent = some .broken ∧ s.result? = some (.ok ⟨"", []⟩) := by
  obtain ⟨s, result, reach, broken, returned⟩ := hasty_returns
  obtain ⟨_, _, _, told⟩ := never_stuck_and_told_by_child hasty
  obtain ⟨_, _, _, heard⟩ := told s result reach returned
  have decoded : Text.decode ⟨(printed .output hasty.child.actions).toArray⟩ = .ok hastyAnswer := by
    rfl
  have same := heard rfl
  simp only [decoded, ofJson_hastyAnswer] at same
  exact ⟨s, reach, broken, same ▸ returned⟩

end Talk

end ModuleTree
