import Mathlib.Data.List.Nodup
import ModuleTree.Barrier.Shared
/- However the threads that share a barrier come to their steps, their calls are decrements of
   one barrier, one after the other in the order in which they end. So the count goes down by one
   for each call that is granted, one call takes it from one to zero, and all calls behind that
   one are refused. -/
namespace ModuleTree.Barrier

/-- Calls one after the other, each a decrement of what the one before it has left. -/
inductive InTurn : UInt64 → List Ended → UInt64 → Prop where
  | none (count : UInt64) : InTurn count [] count
  | next {e : Ended} {later : List Ended} {count : UInt64}
      (decrement : (Barrier.mk e.before.toNat).decrement = (e.answer, ⟨e.after.toNat⟩))
      (rest : InTurn e.after later count) : InTurn e.before (e :: later) count

def granted (ended : List Ended) : List Release := ended.filterMap (·.answer.toOption)

theorem decrement_zero {count : UInt64} (zero : count = 0) :
    (Barrier.mk count.toNat).decrement = (.error .overrun, ⟨count.toNat⟩) := by
  subst zero
  rfl

theorem decrement_pos {count : UInt64} (pos : count ≠ 0) :
    (Barrier.mk count.toNat).decrement =
      (.ok (.of (count - 1).toNat), ⟨(count - 1).toNat⟩) ∧
      (count - 1).toNat + 1 = count.toNat := by
  have apart : count.toNat ≠ 0 := fun zero => pos (UInt64.toNat_inj.mp zero)
  have one : (1 : UInt64) ≤ count := UInt64.le_iff_toNat_le.mpr (Nat.pos_of_ne_zero apart)
  have below : (count - 1).toNat = count.toNat - 1 := UInt64.toNat_sub_of_le _ _ one
  have whole : (count - 1).toNat + 1 = count.toNat := by omega
  refine ⟨?_, whole⟩
  rw [← whole]
  rfl

theorem Release.of_eq_pending {remaining k : Nat} :
    Release.of remaining = .pending k ↔ remaining = k ∧ k ≠ 0 := by
  unfold Release.of
  split <;> simp <;> omega

theorem Release.of_eq_released {remaining : Nat} : Release.of remaining = .released ↔ remaining = 0 := by
  unfold Release.of
  split <;> simp [*]

namespace InTurn

variable {count count' : UInt64} {ended later : List Ended}

theorem concat {after : UInt64} {answer : Except Fault Release}
    (turn : InTurn count ended count')
    (decrement : (Barrier.mk count'.toNat).decrement = (answer, ⟨after.toNat⟩)) :
    InTurn count (ended ++ [⟨count', after, answer⟩]) after := by
  induction turn with
  | none c => exact .next (e := ⟨c, after, answer⟩) decrement (.none after)
  | next first rest ih => exact .next first (ih decrement)

theorem split (turn : InTurn count (ended ++ later) count') :
    ∃ between, InTurn count ended between ∧ InTurn between later count' := by
  induction ended generalizing count with
  | nil => exact ⟨count, .none count, turn⟩
  | cons e ended ih =>
    cases turn with
    | next first rest =>
      obtain ⟨between, early, late⟩ := ih rest
      exact ⟨between, .next first early, late⟩

theorem refused_of_zero (turn : InTurn count ended count') (zero : count = 0) :
    count' = 0 ∧ ∀ e ∈ ended, e.answer = .error .overrun := by
  induction turn with
  | none c => exact ⟨zero, by simp⟩
  | @next e later c first rest ih =>
    rw [decrement_zero zero, Prod.mk.injEq, Barrier.mk.injEq] at first
    obtain ⟨refused, still⟩ := first
    obtain ⟨last, others⟩ := ih ((UInt64.toNat_inj.mp still).symm.trans zero)
    exact ⟨last, List.forall_mem_cons.mpr ⟨refused.symm, others⟩⟩

theorem each (turn : InTurn count ended count') {e : Ended} (mem : e ∈ ended) :
    (e.before = 0 ∧ e.after = 0 ∧ e.answer = .error .overrun) ∨
      (e.after.toNat + 1 = e.before.toNat ∧ e.answer = .ok (.of e.after.toNat)) := by
  induction turn with
  | none => cases mem
  | @next f later c first rest ih =>
    rcases List.mem_cons.mp mem with rfl | behind
    · by_cases zero : e.before = 0
      · rw [decrement_zero zero, Prod.mk.injEq, Barrier.mk.injEq] at first
        exact .inl ⟨zero, (UInt64.toNat_inj.mp first.2).symm.trans zero, first.1.symm⟩
      · obtain ⟨decrement, whole⟩ := decrement_pos zero
        rw [decrement, Prod.mk.injEq, Barrier.mk.injEq] at first
        obtain ⟨given, below⟩ := first
        exact .inr ⟨by omega, by rw [← given, below]⟩
    · exact ih behind

theorem granted_eq (turn : InTurn count ended count') :
    count'.toNat = count.toNat - ended.length ∧
      granted ended = (List.range (min count.toNat ended.length)).map
        fun i => Release.of (count.toNat - 1 - i) := by
  induction turn with
  | none c => simp [granted]
  | @next e later c first rest ih =>
    obtain ⟨last, others⟩ := ih
    by_cases zero : e.before = 0
    · rw [decrement_zero zero, Prod.mk.injEq, Barrier.mk.injEq] at first
      have bottom : e.before.toNat = 0 := by rw [zero]; rfl
      have refused : e.answer.toOption = Option.none := by rw [← first.1]; rfl
      have before : granted (e :: later) = granted later := List.filterMap_cons_none refused
      rw [before, others, last, ← first.2, bottom]
      simp
    · obtain ⟨decrement, whole⟩ := decrement_pos zero
      rw [decrement, Prod.mk.injEq, Barrier.mk.injEq] at first
      obtain ⟨given, below⟩ := first
      have taken : e.answer.toOption = some (Release.of e.after.toNat) := by
        rw [← given, below]; rfl
      have before : granted (e :: later) = Release.of e.after.toNat :: granted later :=
        List.filterMap_cons_some taken
      have more : min e.before.toNat (e :: later).length = min e.after.toNat later.length + 1 := by
        rw [List.length_cons]; omega
      refine ⟨by rw [last, List.length_cons]; omega, ?_⟩
      rw [before, others, more, List.range_succ_eq_map, List.map_cons, List.map_map]
      have head : e.after.toNat = e.before.toNat - 1 - 0 := by omega
      have tail (i : Nat) : e.after.toNat - 1 - i = e.before.toNat - 1 - (i + 1) := by omega
      simp only [← head, tail, Function.comp_def, Nat.succ_eq_add_one]

theorem refused_behind (turn : InTurn count (ended ++ later) count') {e : Ended}
    (mem : e ∈ ended) (released : e.answer = .ok .released) :
    ∀ l ∈ later, l.answer = .error .overrun := by
  obtain ⟨early, behind, rfl⟩ := List.append_of_mem mem
  rw [List.append_assoc] at turn
  obtain ⟨_, _, turn⟩ := turn.split
  cases turn with
  | next decrement rest =>
    have bottom : e.after = 0 := by
      rcases each (.next decrement rest) List.mem_cons_self with ⟨_, zero, _⟩ | ⟨_, given⟩
      · exact zero
      · refine UInt64.toNat_inj.mp ?_
        rw [released, Except.ok.injEq] at given
        by_contra more
        simp [Release.of, show e.after.toNat ≠ 0 from more] at given
    intro l there
    exact (rest.refused_of_zero bottom).2 l (List.mem_append_right behind there)

theorem granted_nodup (turn : InTurn count ended count') : (granted ended).Nodup := by
  rw [turn.granted_eq.2]
  refine List.Nodup.map_on (fun i there j here same => ?_) List.nodup_range
  rw [List.mem_range] at there here
  cases given : Release.of (count.toNat - 1 - j) with
  | released =>
    rw [given, Release.of_eq_released] at same
    rw [Release.of_eq_released] at given
    omega
  | pending k =>
    rw [given, Release.of_eq_pending] at same
    rw [Release.of_eq_pending] at given
    omega

theorem mem_granted (turn : InTurn count ended count') (r : Release) :
    r ∈ granted ended ↔ ∃ i < min count.toNat ended.length, Release.of (count.toNat - 1 - i) = r := by
  rw [turn.granted_eq.2]
  simp only [List.mem_map, List.mem_range]

theorem count_pending (turn : InTurn count ended count') (k : Nat) :
    (granted ended).count (.pending k) =
      if max 1 (count.toNat - ended.length) ≤ k ∧ k < count.toNat then 1 else 0 := by
  have among : .pending k ∈ granted ended ↔
      max 1 (count.toNat - ended.length) ≤ k ∧ k < count.toNat := by
    rw [turn.mem_granted]
    constructor
    · rintro ⟨i, less, same⟩
      rw [Release.of_eq_pending] at same
      omega
    · intro between
      exact ⟨count.toNat - 1 - k, by omega, Release.of_eq_pending.mpr (by omega)⟩
  rw [turn.granted_nodup.count]
  simp only [among]

theorem count_released (turn : InTurn count ended count') :
    (granted ended).count .released =
      if 1 ≤ count.toNat ∧ count.toNat ≤ ended.length then 1 else 0 := by
  have among : .released ∈ granted ended ↔ 1 ≤ count.toNat ∧ count.toNat ≤ ended.length := by
    rw [turn.mem_granted]
    constructor
    · rintro ⟨i, less, same⟩
      rw [Release.of_eq_released] at same
      omega
    · intro enough
      exact ⟨count.toNat - 1, by omega, Release.of_eq_released.mpr (by omega)⟩
  rw [turn.granted_nodup.count]
  simp only [among]

end InTurn

namespace Shared

variable {s t u : Shared} {count : UInt64} {calls : List Nat}

/-- What holds at every moment. The count only falls, so a thread that has seen zero has seen the
last of it. -/
structure Valid (count : UInt64) (calls : List Nat) (s : Shared) : Prop where
  turn : InTurn count s.ended s.count
  seen : ∀ t ∈ s.threads, ∀ c ∈ t.seen, s.count ≤ c
  counted : s.ended.length + s.left = total calls

theorem total_append (early late : List Nat) : total (early ++ late) = total early + total late := by
  induction early with
  | nil => simp [total]
  | cons calls early ih => simp [total, ih, Nat.add_assoc]

theorem total_eq_zero {counts : List Nat} (none : ∀ calls ∈ counts, calls = 0) :
    total counts = 0 := by
  induction counts with
  | nil => rfl
  | cons calls counts ih =>
    obtain ⟨first, others⟩ := List.forall_mem_cons.mp none
    rw [total, first, ih others]

theorem left_eq {before after : List Thread} {t : Thread}
    (threads : s.threads = before ++ t :: after) :
    s.left = total (before.map Thread.left) + t.left + total (after.map Thread.left) := by
  rw [left, threads, List.map_append, List.map_cons, total_append, total, Nat.add_assoc]

theorem seen_replaced {before after : List Thread} {t t' : Thread} {c : UInt64}
    (seen : ∀ u ∈ before ++ t :: after, ∀ old ∈ u.seen, c ≤ old) (own : ∀ new ∈ t'.seen, c ≤ new) :
    ∀ u ∈ before ++ t' :: after, ∀ old ∈ u.seen, c ≤ old := by
  intro u mem
  rcases List.mem_append.mp mem with early | late
  · exact seen u (List.mem_append_left _ early)
  · rcases List.mem_cons.mp late with rfl | behind
    · exact own
    · exact seen u (List.mem_append_right _ (List.mem_cons_of_mem t behind))

theorem begin_valid (count : UInt64) (calls : List Nat) : (begin count calls).Valid count calls where
  turn := .none count
  seen := by simp [begin]
  counted := by simp [begin, left, Thread.left, Function.comp_def]

theorem lower?_eq_none {c : UInt64} (bottom : lower? c = none) : c = 0 := by
  simpa [lower?] using bottom

theorem lower?_eq_some {c below : UInt64} (lower : lower? c = some below) :
    c ≠ 0 ∧ c - 1 = below := by
  simpa [lower?, ite_eq_iff] using lower

theorem step_valid (valid : s.Valid count calls) (step : Step s t) : t.Valid count calls := by
  obtain ⟨turn, seen, counted⟩ := valid
  cases step with
  | @load before after waiting threads =>
    rw [threads] at seen
    rw [left_eq threads] at counted
    refine ⟨turn, seen_replaced seen (by simp), ?_⟩
    rw [left_eq rfl]
    simp only [Thread.left, Option.toList_none, Option.toList_some, List.length_nil,
      List.length_singleton] at counted ⊢
    omega
  | @refuse before after waiting c threads bottom =>
    rw [threads] at seen
    rw [left_eq threads] at counted
    have zero : s.count = 0 := by
      have least := seen ⟨waiting, some c⟩ (by simp) c rfl
      rw [lower?_eq_none bottom] at least
      exact UInt64.le_zero_iff.mp least
    refine ⟨turn.concat (decrement_zero zero), seen_replaced seen (by simp), ?_⟩
    rw [left_eq rfl]
    simp only [Thread.left, Option.toList_none, Option.toList_some, List.length_nil,
      List.length_singleton, List.length_append] at counted ⊢
    omega
  | @exchange before after waiting c below threads lower same =>
    rw [threads] at seen
    rw [left_eq threads] at counted
    obtain ⟨pos, rfl⟩ := lower?_eq_some lower
    subst same
    obtain ⟨decrement, whole⟩ := decrement_pos pos
    have falls : s.count - 1 ≤ s.count := UInt64.le_iff_toNat_le.mpr (by omega)
    refine ⟨turn.concat decrement, seen_replaced (t := ⟨waiting, some s.count⟩) ?_ (by simp), ?_⟩
    · exact fun u mem old there => UInt64.le_trans falls (seen u mem old there)
    rw [left_eq rfl]
    simp only [Thread.left, Option.toList_none, Option.toList_some, List.length_nil,
      List.length_singleton, List.length_append] at counted ⊢
    omega
  | @retry before after waiting c below threads lower =>
    rw [threads] at seen
    rw [left_eq threads] at counted
    refine ⟨turn, seen_replaced seen (by simp), ?_⟩
    rw [left_eq rfl]
    simpa only [Thread.left, Option.toList_some, List.length_singleton] using counted

theorem valid_of_reaches (reach : (begin count calls).Reaches s) : s.Valid count calls := by
  induction reach with
  | refl => exact begin_valid count calls
  | step _ step ih => exact step_valid ih step

theorem Reaches.trans (reach : s.Reaches t) (further : t.Reaches u) : s.Reaches u := by
  induction further with
  | refl => exact reach
  | step _ step ih => exact .step ih step

theorem ends_seen {before after : List Thread} {waiting : Nat}
    (threads : s.threads = before ++ ⟨waiting, some s.count⟩ :: after) :
    ∃ t, Step s t ∧ t.left < s.left := by
  have fewer {ended : List Ended} {c : UInt64} :
      Shared.left ⟨c, before ++ ⟨waiting, none⟩ :: after, ended⟩ < s.left := by
    rw [left_eq threads, left_eq rfl]
    simp [Thread.left]
  cases lower : lower? s.count with
  | none => exact ⟨_, .refuse threads lower, fewer⟩
  | some below => exact ⟨_, .exchange threads lower rfl, fewer⟩

theorem ends_call (open_ : s.left ≠ 0) : ∃ t, s.Reaches t ∧ t.left < s.left := by
  obtain ⟨t, mem, busy⟩ : ∃ t ∈ s.threads, t.left ≠ 0 := by
    by_contra idle
    push Not at idle
    exact open_ (total_eq_zero (by simpa using idle))
  obtain ⟨before, after, threads⟩ := List.append_of_mem mem
  obtain ⟨waiting, seen⟩ := t
  -- A thread that knows the count of this moment needs one more step; the others look first.
  have looked {s' : Shared} {w : Nat} (step : Step s s') (count : s'.count = s.count)
      (threads' : s'.threads = before ++ ⟨w, some s.count⟩ :: after) (same : s'.left = s.left) :
      ∃ t, s.Reaches t ∧ t.left < s.left := by
    rw [← count] at threads'
    obtain ⟨t, last, less⟩ := ends_seen threads'
    exact ⟨t, .step (.step .refl step) last, same ▸ less⟩
  cases seen with
  | none =>
    cases waiting with
    | zero => exact absurd rfl busy
    | succ waiting =>
      refine looked (.load threads) rfl rfl ?_
      rw [left_eq threads, left_eq rfl]
      simp [Thread.left]
  | some c =>
    cases lower : lower? c with
    | none =>
      refine ⟨_, .step .refl (.refuse threads lower), ?_⟩
      rw [left_eq threads, left_eq rfl]
      simp [Thread.left]
    | some below =>
      refine looked (.retry threads lower) rfl rfl ?_
      rw [left_eq threads, left_eq rfl]
      rfl

theorem all_end (s : Shared) : ∃ t, s.Reaches t ∧ t.left = 0 := by
  induction h : s.left using Nat.strongRecOn generalizing s with
  | ind k ih =>
    by_cases none : s.left = 0
    · exact ⟨s, .refl, none⟩
    · obtain ⟨t, reach, less⟩ := ends_call none
      obtain ⟨u, further, last⟩ := ih t.left (h ▸ less) t rfl
      exact ⟨u, reach.trans further, last⟩

/-- At any moment of a run, and so when no call is left: the calls that are over are decrements
one after the other, so many are granted as there was count for, each grant is given once, and the
release to the call that takes the count from one to zero. -/
theorem released_once (reach : (begin count calls).Reaches s) :
    s.ended.length + s.left = total calls ∧
      InTurn count s.ended s.count ∧
      s.count.toNat + (granted s.ended).length = count.toNat ∧
      (granted s.ended).length = min count.toNat s.ended.length ∧
      (∀ k, (granted s.ended).count (.pending k) =
        if max 1 (count.toNat - s.ended.length) ≤ k ∧ k < count.toNat then 1 else 0) ∧
      (granted s.ended).count .released =
        (if 1 ≤ count.toNat ∧ count.toNat ≤ s.ended.length then 1 else 0) ∧
      (∀ e ∈ s.ended, e.after ≤ e.before ∧
        (e.answer = .ok .released ↔ e.before = 1 ∧ e.after = 0) ∧
        (e.answer.toOption = none → e.answer = .error .overrun ∧ e.after = e.before)) ∧
      (∀ early e late, s.ended = early ++ e :: late → e.answer = .ok .released →
        ∀ l ∈ late, l.answer = .error .overrun) ∧
      ∃ t, s.Reaches t ∧ t.left = 0 := by
  have valid := valid_of_reaches reach
  obtain ⟨last, given⟩ := valid.turn.granted_eq
  have many : (granted s.ended).length = min count.toNat s.ended.length := by simp [given]
  refine ⟨valid.counted, valid.turn, by omega, many, valid.turn.count_pending,
    valid.turn.count_released, ?_, ?_, s.all_end⟩
  · intro e mem
    rcases valid.turn.each mem with ⟨before, after, refused⟩ | ⟨down, granted⟩
    · simp [before, after, refused]
    · refine ⟨UInt64.le_iff_toNat_le.mpr (by omega), ?_, by simp [granted, Except.toOption]⟩
      rw [granted, Except.ok.injEq, Release.of_eq_released, ← UInt64.toNat_inj, ← UInt64.toNat_inj]
      simp only [UInt64.toNat_one, UInt64.toNat_zero]
      omega
  · intro early e late ended released
    have turn := valid.turn
    rw [ended, List.append_cons] at turn
    exact turn.refused_behind (by simp) released

theorem released_once_among_three_calls :
    ∃ s, (begin 2 [2, 1]).Reaches s ∧ s.left = 0 ∧
      s.ended.map (·.answer) = [.ok (.pending 1), .ok .released, .error .overrun] ∧
      (granted s.ended).count .released = 1 ∧ (granted s.ended).count (.pending 1) = 1 := by
  have looked : (begin 2 [2, 1]).Reaches ⟨2, [⟨1, some 2⟩, ⟨0, some 2⟩], []⟩ :=
    .step (.step .refl (@Step.load _ [] _ _ rfl)) (@Step.load _ [⟨1, some 2⟩] _ _ rfl)
  have lowered : (begin 2 [2, 1]).Reaches
      ⟨1, [⟨1, some 1⟩, ⟨0, none⟩], [⟨2, 1, .ok (.pending 1)⟩]⟩ :=
    .step (.step looked (@Step.exchange _ [⟨1, some 2⟩] _ _ _ 1 rfl rfl rfl))
      (@Step.retry _ [] _ _ _ 1 rfl rfl)
  have released : (begin 2 [2, 1]).Reaches ⟨0, [⟨0, some 0⟩, ⟨0, none⟩],
      [⟨2, 1, .ok (.pending 1)⟩, ⟨1, 0, .ok .released⟩]⟩ :=
    .step (.step lowered (@Step.exchange _ [] _ _ _ 0 rfl rfl rfl)) (@Step.load _ [] _ _ rfl)
  have reach : (begin 2 [2, 1]).Reaches ⟨0, [⟨0, none⟩, ⟨0, none⟩],
      [⟨2, 1, .ok (.pending 1)⟩, ⟨1, 0, .ok .released⟩, ⟨0, 0, .error .overrun⟩]⟩ :=
    .step released (@Step.refuse _ [] _ _ _ rfl rfl)
  obtain ⟨_, _, _, _, pending, once, _⟩ := released_once reach
  exact ⟨_, reach, rfl, rfl, once, pending 1⟩

end Shared

end ModuleTree.Barrier
