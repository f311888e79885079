import ModuleTree.Stream.Session
/- Reading and writing a call at a time. A read gives what there is room for of one piece, and a
   source is read until a read gives nothing. A write takes a part of what it is handed, and code
   is written until nothing of it is left, and is then flushed. -/
namespace ModuleTree

theorem extract_append_rest (bytes : ByteArray) (count : Nat) :
    bytes.extract 0 count ++ bytes.extract count bytes.size = bytes := by
  rw [ByteArray.extract_append_extract, Nat.zero_min, ByteArray.extract_zero_max_size]

theorem extract_min_size (bytes : ByteArray) (first last : Nat) :
    bytes.extract first (min last bytes.size) = bytes.extract first last := by
  have again := ByteArray.extract_extract (a := bytes) (i := 0) (j := bytes.size) (k := first)
    (l := last)
  rw [ByteArray.extract_zero_size, Nat.zero_add, Nat.zero_add] at again
  exact again.symm

theorem extract_size_extract (bytes : ByteArray) (count : Nat) :
    bytes.extract 0 (bytes.extract 0 count).size = bytes.extract 0 count := by
  rw [ByteArray.size_extract, Nat.sub_zero, extract_min_size]

namespace Reader

def left (r : Reader) : ByteArray := r.pieces.foldl (· ++ ·) .empty

/-- A read into a buffer with this much room. It gives nothing only at the end. -/
def read (r : Reader) (room : Nat) : Except IoError (ByteArray × Reader) :=
  match r.pieces.dropWhile (·.isEmpty) with
  | piece :: later =>
    .ok (piece.extract 0 room, { r with pieces := piece.extract room piece.size :: later })
  | [] =>
    match r.failure with
    | some e => .error e
    | none => .ok (.empty, r)

theorem foldl_append (pieces : List ByteArray) (bytes : ByteArray) :
    pieces.foldl (· ++ ·) bytes = bytes ++ pieces.foldl (· ++ ·) .empty := by
  induction pieces generalizing bytes with
  | nil => simp
  | cons piece later ih =>
    rw [List.foldl_cons, List.foldl_cons, ih, ih (.empty ++ piece), ByteArray.empty_append,
      ByteArray.append_assoc]

@[simp] theorem left_cons (piece : ByteArray) (later : List ByteArray)
    (failure : Option IoError) :
    left ⟨piece :: later, failure⟩ = piece ++ left ⟨later, failure⟩ := by
  rw [left, List.foldl_cons, ByteArray.empty_append, foldl_append]
  rfl

theorem left_dropWhile (pieces : List ByteArray) (failure : Option IoError) :
    left ⟨pieces.dropWhile (·.isEmpty), failure⟩ = left ⟨pieces, failure⟩ := by
  induction pieces with
  | nil => rfl
  | cons piece later ih =>
    by_cases empty : piece.isEmpty
    · rw [List.dropWhile_cons_of_pos empty, ih, left_cons,
        ByteArray.size_eq_zero_iff.mp (beq_iff_eq.mp empty), ByteArray.empty_append]
    · rw [List.dropWhile_cons_of_neg empty]

inductive Reads (r : Reader) : Except IoError (ByteArray × Reader) → Prop where
  | given {bytes : ByteArray} {r' : Reader} (some_ : 0 < bytes.size)
      (all : r.left = bytes ++ r'.left) (same : r'.failure = r.failure) : Reads r (.ok (bytes, r'))
  | ended (all : r.left = .empty) (sound : r.failure = none) : Reads r (.ok (.empty, r))
  | failed {e : IoError} (fails : r.failure = some e) : Reads r (.error e)

theorem reads (r : Reader) {room : Nat} (positive : 0 < room) : Reads r (r.read room) := by
  have all := left_dropWhile r.pieces r.failure
  unfold read
  split
  · rename_i piece later shown
    have some_ := List.head?_dropWhile_not (·.isEmpty) r.pieces
    rw [shown, List.head?_cons] at some_
    rw [shown, left_cons] at all
    have filled : 0 < piece.size := by
      simpa [ByteArray.isEmpty, Nat.pos_iff_ne_zero] using some_
    refine .given ?_ ?_ rfl
    · rw [ByteArray.size_extract]
      omega
    · rw [left_cons, ← ByteArray.append_assoc, extract_append_rest, all]
  · rename_i shown
    rw [shown] at all
    split
    · rename_i fails
      exact .failed fails
    · rename_i sound
      exact .ended all.symm sound

theorem left_lt_of_read {r r' : Reader} {room : Nat} {bytes : ByteArray}
    (h : r.read (room + 1) = .ok (bytes, r')) (some_ : ¬ bytes.size = 0) :
    r'.left.size < r.left.size := by
  have came := h ▸ reads r (Nat.succ_pos room)
  cases came with
  | given _ all =>
    rw [all, ByteArray.size_append]
    omega
  | ended => contradiction

/-- Reads into buffers of any sizes, one after another, to the end. -/
def drain (pace : Nat → Nat) (r : Reader) : Except IoError ByteArray :=
  match _ : r.read (pace 0 + 1) with
  | .error e => .error e
  | .ok (bytes, r') =>
    if bytes.size = 0 then .ok .empty else (drain (fun n => pace (n + 1)) r').map (bytes ++ ·)
termination_by r.left.size
decreasing_by exact left_lt_of_read ‹_› ‹_›

end Reader

namespace Sink

/-- A write of something, of which it takes no more than this much. To take nothing is to fail. -/
def write (s : Sink) (most : Nat) (bytes : ByteArray) : Except IoError (Nat × Sink) :=
  let taken := (s.accepted bytes).extract 0 most
  if taken.size = 0 then .error full else .ok (taken.size, s.fill taken)

theorem accepted_eq_extract (s : Sink) (bytes : ByteArray) :
    ∃ room, s.accepted bytes = bytes.extract 0 room := by
  unfold accepted
  split
  · exact ⟨bytes.size, ByteArray.extract_zero_size.symm⟩
  · exact ⟨_, rfl⟩

inductive Writes (s : Sink) (bytes : ByteArray) : Except IoError (Nat × Sink) → Prop where
  | taken {count : Nat} (some_ : 0 < count) (few : count ≤ (s.accepted bytes).size) :
      Writes s bytes (.ok (count, s.fill (bytes.extract 0 count)))
  | full (none_ : s.accepted bytes = .empty) : Writes s bytes (.error full)

theorem writes (s : Sink) {most : Nat} (positive : 0 < most) (bytes : ByteArray) :
    Writes s bytes (s.write most bytes) := by
  have size := ByteArray.size_extract (a := s.accepted bytes) (b := 0) (e := most)
  unfold write
  dsimp only
  split
  · rename_i none_
    exact .full (ByteArray.size_eq_zero_iff.mp (by omega))
  · rename_i some_
    obtain ⟨room, accepted⟩ := s.accepted_eq_extract bytes
    have taken : (s.accepted bytes).extract 0 most = bytes.extract 0 (min most room) := by
      rw [accepted, ByteArray.extract_extract, Nat.zero_add, Nat.zero_add]
    have came := @Writes.taken s bytes ((s.accepted bytes).extract 0 most).size (by omega)
      (by omega)
    rwa [taken, extract_size_extract, ← taken] at came

theorem size_rest_of_write {s s' : Sink} {most count : Nat} {bytes : ByteArray}
    (h : s.write (most + 1) bytes = .ok (count, s')) (some_ : ¬ bytes.size = 0) :
    (bytes.extract count bytes.size).size < bytes.size := by
  have came := h ▸ s.writes (Nat.succ_pos most) bytes
  cases came with
  | taken positive few =>
    rw [ByteArray.size_extract]
    omega

/-- Writes, each of which takes as much as it likes, until nothing is left, and a flush. -/
def pour (pace : Nat → Nat) (s : Sink) (bytes : ByteArray) : Except IoError Unit × Sink :=
  if bytes.size = 0 then s.flush
  else
    match _ : s.write (pace 0 + 1) bytes with
    | .error e => (.error e, s)
    | .ok (count, s') => pour (fun n => pace (n + 1)) s' (bytes.extract count bytes.size)
termination_by bytes.size
decreasing_by exact size_rest_of_write ‹_› ‹_›

end Sink

/-- The calls of a session, with reads and writes of any sizes. -/
def Session.paced (reads writes : Nat → Nat) : StreamCalls (StateM Session) where
  readAll := fun s => (s.reader.drain reads, s)
  compile := streamCalls.compile
  writeAll := fun bytes s =>
    let (outcome, sink) := s.sink.pour writes bytes
    (outcome, { s with sink })
  note := streamCalls.note

end ModuleTree
