import ModuleTree.Stream.Pieces
/- In however many pieces a source comes and is asked for, all of it is read; and however little a
   sink takes at a time, it comes to hold what there is room for. So a session goes the same way
   at whatever pace it reads and writes. -/
namespace ModuleTree

namespace Reader

variable {r r' : Reader} {bytes : ByteArray} {e : IoError}

theorem readAll_of_failure (fails : r.failure = some e) : r.readAll = .error e := by
  rw [readAll, fails]

theorem readAll_of_sound (sound : r.failure = none) : r.readAll = .ok r.left := by
  rw [readAll, sound]
  rfl

theorem readAll_given (all : r.left = bytes ++ r'.left) (same : r'.failure = r.failure) :
    r.readAll = r'.readAll.map (bytes ++ ·) := by
  cases fails : r.failure with
  | some e =>
    rw [readAll_of_failure fails, readAll_of_failure (same.trans fails)]
    rfl
  | none =>
    rw [readAll_of_sound fails, readAll_of_sound (same.trans fails), all]
    rfl

theorem drain_eq (pace : Nat → Nat) (r : Reader) : r.drain pace = r.readAll := by
  fun_induction drain pace r with
  | case1 pace r e step =>
    have came := step ▸ r.reads (Nat.succ_pos (pace 0))
    cases came with
    | failed fails => exact (readAll_of_failure fails).symm
  | case2 pace r bytes r' step none_ =>
    have came := step ▸ r.reads (Nat.succ_pos (pace 0))
    cases came with
    | given some_ => omega
    | ended all sound => rw [readAll_of_sound sound, all]
  | case3 pace r bytes r' step some_ ih =>
    have came := step ▸ r.reads (Nat.succ_pos (pace 0))
    cases came with
    | given _ all same => rw [ih, readAll_given all same]
    | ended => contradiction

end Reader

namespace Sink

variable {s : Sink} {bytes : ByteArray} {count : Nat}

theorem writeAll_eq (s : Sink) (bytes : ByteArray) :
    s.writeAll bytes =
      if (s.accepted bytes).size = bytes.size then (s.fill (s.accepted bytes)).flush
      else (.error full, s.fill (s.accepted bytes)) := rfl

@[simp] theorem fill_empty (s : Sink) : s.fill .empty = s := by
  obtain ⟨written, room, flushFailure, flushes⟩ := s
  cases room <;> simp [fill]

theorem fill_fill (s : Sink) (first second : ByteArray) :
    (s.fill first).fill second = s.fill (first ++ second) := by
  simp only [fill, ByteArray.append_assoc, Option.map_map, ByteArray.size_append]
  congr 2
  funext room
  exact Nat.sub_sub ..

theorem accepted_rest (few : count ≤ (s.accepted bytes).size) :
    s.accepted bytes = bytes.extract 0 count ++
      (s.fill (bytes.extract 0 count)).accepted (bytes.extract count bytes.size) := by
  unfold accepted at few ⊢
  cases limit : s.room with
  | none =>
    simp only [fill, limit, Option.map_none]
    exact (extract_append_rest bytes count).symm
  | some room =>
    rw [limit] at few
    simp only [ByteArray.size_extract] at few
    have size : (bytes.extract 0 count).size = count := by
      rw [ByteArray.size_extract]
      omega
    simp only [fill, limit, Option.map_some, size, ByteArray.extract_extract, Nat.add_zero]
    rw [Nat.add_sub_cancel' (by omega), extract_min_size]
    exact ByteArray.extract_eq_extract_append_extract count (by omega) (by omega)

theorem writeAll_rest (few : count ≤ (s.accepted bytes).size) :
    (s.fill (bytes.extract 0 count)).writeAll (bytes.extract count bytes.size) =
      s.writeAll bytes := by
  have accepted := accepted_rest few
  have whole := congrArg ByteArray.size (extract_append_rest bytes count)
  have size := congrArg ByteArray.size accepted
  rw [ByteArray.size_append] at whole size
  rw [writeAll_eq, writeAll_eq, fill_fill, ← accepted]
  exact ite_congr (propext (by omega)) (fun _ => rfl) (fun _ => rfl)

theorem writeAll_of_empty (s : Sink) : s.writeAll .empty = s.flush := by
  have none_ : s.accepted .empty = .empty := by
    obtain ⟨room, accepted⟩ := s.accepted_eq_extract .empty
    rw [accepted, ByteArray.extract_eq_empty_iff]
    exact Nat.min_le_right room 0
  rw [writeAll_eq, none_, fill_empty, if_pos rfl]

theorem writeAll_of_full (some_ : ¬ bytes.size = 0) (none_ : s.accepted bytes = .empty) :
    s.writeAll bytes = (.error full, s) := by
  rw [writeAll_eq, none_, fill_empty, if_neg (by simpa using Ne.symm some_)]

theorem pour_eq (pace : Nat → Nat) (s : Sink) (bytes : ByteArray) :
    s.pour pace bytes = s.writeAll bytes := by
  fun_induction pour pace s bytes with
  | case1 pace s bytes none_ => rw [ByteArray.size_eq_zero_iff.mp none_, writeAll_of_empty]
  | case2 pace s bytes some_ e step =>
    have came := step ▸ s.writes (Nat.succ_pos (pace 0)) bytes
    cases came with
    | full none_ => exact (writeAll_of_full some_ none_).symm
  | case3 pace s bytes some_ count s' step ih =>
    have came := step ▸ s.writes (Nat.succ_pos (pace 0)) bytes
    cases came with
    | taken _ few => rw [ih, writeAll_rest few]

end Sink

theorem Session.paced_eq (reads writes : Nat → Nat) : paced reads writes = streamCalls := by
  simp only [paced, Reader.drain_eq, Sink.pour_eq]
  rfl

end ModuleTree
