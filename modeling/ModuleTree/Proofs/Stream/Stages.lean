import ModuleTree.Stream.Compile
import ModuleTree.Proofs.Stream.Pieces
/- The stages of a stream that is compiled: it is read, compiled, shown to whoever keeps count, and
   written. A stage that fails ends it, and nothing of the later ones has happened then. -/
namespace ModuleTree

/-- The text that a reader gives, unless it fails or what it gives is not text. -/
def Reader.text (r : Reader) : Except IoError String :=
  match r.failure with
  | some e => .error e
  | none =>
    match String.fromUTF8? r.left with
    | none => .error .notText
    | some source => .ok source

def Sink.capacity (s : Sink) (bytes : ByteArray) : Nat :=
  match s.room with
  | none => bytes.size
  | some room => min room bytes.size

@[simp] theorem Sink.flushFailure_fill (s : Sink) (taken : ByteArray) :
    (s.fill taken).flushFailure = s.flushFailure := rfl

theorem Sink.size_accepted (s : Sink) (bytes : ByteArray) :
    (s.accepted bytes).size = s.capacity bytes := by
  unfold accepted capacity
  cases s.room with
  | none => rfl
  | some room => rw [ByteArray.size_extract, Nat.sub_zero]

theorem Sink.accepted_eq (s : Sink) (bytes : ByteArray) :
    s.accepted bytes = bytes.extract 0 (s.capacity bytes) := by
  unfold accepted capacity
  cases s.room with
  | none => exact ByteArray.extract_zero_size.symm
  | some room => exact (extract_min_size bytes 0 room).symm

namespace Session

/-- What was asked, registered, written and flushed from one state of a session to another. -/
structure Did (before after : Session) (asked : List Request) (registered : List Compiled)
    (written : ByteArray) (flushes : Nat) : Prop where
  asked : after.asked = asked ++ before.asked
  registered : after.registered = registered ++ before.registered
  written : after.sink.written = before.sink.written ++ written
  flushes : after.sink.flushes = before.sink.flushes + flushes

theorem did_nothing (s : Session) : s.Did s [] [] .empty 0 :=
  ⟨rfl, rfl, ByteArray.append_empty.symm, rfl⟩

/-- What comes of a module that is let through: the sink gets as much of its code as it takes. -/
structure Delivers (s : Session) (output : Endpoint) (request : Request) (m : Compiled)
    (result : Except RunError Compiled) (after : Session) : Prop where
  did : s.Did after [request] [m] (m.code.toUTF8.extract 0 (s.sink.capacity m.code.toUTF8))
    (if s.sink.capacity m.code.toUTF8 = m.code.toUTF8.size then 1 else 0)
  ok : result = .ok m ↔
    s.sink.capacity m.code.toUTF8 = m.code.toUTF8.size ∧ s.sink.flushFailure = none
  failed : result ≠ .ok m → ∃ reason, result = .error (.stream ⟨output, .writeAll, reason⟩)

/-- What has been done by the stage at which a stream ended, and with what result. -/
structure Effects (s : Session) (input output : Endpoint) (moduleName : Option String)
    (settings : Settings) (hook : Compiled → Except RunError Unit)
    (result : Except RunError Compiled) (after : Session) : Prop where
  unread : ∀ reason, s.reader.text = .error reason →
    result = .error (.stream ⟨input, .readAll, reason⟩) ∧ s.Did after [] [] .empty 0
  uncompiled : ∀ source e, s.reader.text = .ok source →
    s.compiler.compile ⟨source, moduleName, settings⟩ = .error e →
    result = .error (.compile input e) ∧
      s.Did after [⟨source, moduleName, settings⟩] [] .empty 0
  refused : ∀ source m e, s.reader.text = .ok source →
    s.compiler.compile ⟨source, moduleName, settings⟩ = .ok m → hook m = .error e →
    result = .error e ∧ s.Did after [⟨source, moduleName, settings⟩] [m] .empty 0
  delivered : ∀ source m, s.reader.text = .ok source →
    s.compiler.compile ⟨source, moduleName, settings⟩ = .ok m → hook m = .ok () →
    s.Delivers output ⟨source, moduleName, settings⟩ m result after

variable {s : Session} {input output : Endpoint} {moduleName : Option String}
  {settings : Settings} {hook : Compiled → Except RunError Unit} {source : String}
  {m : Compiled}

section Stages

def heard (s : Session) (input : Endpoint) : Session :=
  s.note ⟨.trace, .stream, s!"read {s.reader.left.size} bytes from {input.text}"⟩

def answered (s : Session) (input : Endpoint) (request : Request) : Session :=
  ((s.heard input).compiling request).2

def shown (s : Session) (input : Endpoint) (request : Request) (m : Compiled) : Session :=
  { s.answered input request with registered := m :: s.registered }

theorem run_bind {α β : Type} {x : StateM Session α} {next : α → StateM Session β} {a : α}
    {s s' : Session} (first : x s = (a, s')) : (x >>= next) s = next a s' := by
  show next (x s).1 (x s).2 = next a s'
  rw [first]

theorem readSource_eq (s : Session) (input : Endpoint) :
    readSource streamCalls input s =
      match s.reader.text with
      | .error e => (.error (.stream ⟨input, .readAll, e⟩), s)
      | .ok source => (.ok source, s.heard input) := by
  have reading : streamCalls.readAll s = (s.reader.readAll, s) := rfl
  unfold readSource
  rw [run_bind reading]
  unfold Reader.text
  cases fails : s.reader.failure with
  | some e =>
    rw [Reader.readAll_of_failure fails]
    rfl
  | none =>
    rw [Reader.readAll_of_sound fails]
    dsimp only
    cases String.fromUTF8? s.reader.left <;> rfl

theorem compileStream_unread {e : IoError} (unread : s.reader.text = .error e) :
    compileStream streamCalls input output moduleName settings
        (fun m => registering (hook m) m) s =
      (.error (.stream ⟨input, .readAll, e⟩), s) := by
  have reading := readSource_eq s input
  rw [unread] at reading
  unfold compileStream
  rw [run_bind reading]
  rfl

theorem compileStream_read (read : s.reader.text = .ok source) :
    compileStream streamCalls input output moduleName settings
        (fun m => registering (hook m) m) s =
      match s.compiler.compile ⟨source, moduleName, settings⟩ with
      | .error e =>
        (.error (.compile input e), s.answered input ⟨source, moduleName, settings⟩)
      | .ok m =>
        match hook m with
        | .error e => (.error e, s.shown input ⟨source, moduleName, settings⟩ m)
        | .ok () =>
          (match (s.sink.writeAll m.code.toUTF8).1 with
            | .error e => .error (.stream ⟨output, .writeAll, e⟩)
            | .ok () => .ok m,
            { s.shown input ⟨source, moduleName, settings⟩ m with
              sink := (s.sink.writeAll m.code.toUTF8).2 }) := by
  have reading := readSource_eq s input
  rw [read] at reading
  have compiling : streamCalls.compile ⟨source, moduleName, settings⟩ (s.heard input) =
      (s.compiler.compile ⟨source, moduleName, settings⟩,
        s.answered input ⟨source, moduleName, settings⟩) := rfl
  unfold compileStream
  rw [run_bind reading]
  dsimp only
  rw [run_bind compiling]
  cases s.compiler.compile ⟨source, moduleName, settings⟩ with
  | error e => rfl
  | ok m =>
    dsimp only
    have showing : registering (hook m) m (s.answered input ⟨source, moduleName, settings⟩) =
      (hook m, s.shown input ⟨source, moduleName, settings⟩ m) := rfl
    rw [run_bind showing]
    cases hook m with
    | error e => rfl
    | ok =>
      dsimp only
      have writing : streamCalls.writeAll m.code.toUTF8
          (s.shown input ⟨source, moduleName, settings⟩ m) =
        ((s.sink.writeAll m.code.toUTF8).1,
          { s.shown input ⟨source, moduleName, settings⟩ m with
            sink := (s.sink.writeAll m.code.toUTF8).2 }) := rfl
      rw [run_bind writing]
      cases (s.sink.writeAll m.code.toUTF8).1 <;> rfl

theorem delivers (s : Session) (input output : Endpoint) (request : Request) (m : Compiled) :
    s.Delivers output request m
      (match (s.sink.writeAll m.code.toUTF8).1 with
        | .error e => .error (.stream ⟨output, .writeAll, e⟩)
        | .ok () => .ok m)
      { s.shown input request m with sink := (s.sink.writeAll m.code.toUTF8).2 } := by
  rw [Sink.writeAll_eq, Sink.size_accepted, Sink.accepted_eq]
  by_cases whole : s.sink.capacity m.code.toUTF8 = m.code.toUTF8.size
  · rw [if_pos whole]
    unfold Sink.flush
    rw [Sink.flushFailure_fill]
    refine ⟨⟨rfl, rfl, rfl, by rw [if_pos whole]; rfl⟩, ?_, ?_⟩
    · cases s.sink.flushFailure with
      | none => exact ⟨fun _ => ⟨whole, rfl⟩, fun _ => rfl⟩
      | some e => exact ⟨nofun, nofun⟩
    · intro other
      cases fails : s.sink.flushFailure with
      | none =>
        rw [fails] at other
        exact absurd rfl other
      | some e => exact ⟨e, rfl⟩
  · rw [if_neg whole]
    exact ⟨⟨rfl, rfl, rfl, by rw [if_neg whole]; rfl⟩,
      ⟨nofun, fun both => absurd both.1 whole⟩, fun _ => ⟨_, rfl⟩⟩

theorem compileStream_of_same_bytes {other : Reader} (left : other.left = s.reader.left)
    (failure : other.failure = s.reader.failure) :
    compileStream streamCalls input output moduleName settings
        (fun m => registering (hook m) m) { s with reader := other } =
      ((compileStream streamCalls input output moduleName settings
          (fun m => registering (hook m) m) s).1,
        { (compileStream streamCalls input output moduleName settings
          (fun m => registering (hook m) m) s).2 with reader := other }) := by
  have text : other.text = s.reader.text := by
    rw [Reader.text, Reader.text, left, failure]
  cases read : s.reader.text with
  | error e => rw [compileStream_unread read, compileStream_unread (text.trans read)]
  | ok source =>
    have heard : Session.heard { s with reader := other } input =
        { s.heard input with reader := other } := by
      unfold Session.heard
      rw [left]
      rfl
    rw [compileStream_read read, compileStream_read (text.trans read)]
    unfold shown answered
    rw [heard]
    dsimp only
    cases s.compiler.compile ⟨source, moduleName, settings⟩ with
    | error e => rfl
    | ok m =>
      dsimp only
      cases hook m <;> rfl

end Stages

/-- At whatever pace a session reads and writes, and in whatever pieces its source comes, it has
the effects of the stages that it has reached and no others. -/
theorem effects_of_stage_reached (s : Session) (reads writes : Nat → Nat)
    (input output : Endpoint) (moduleName : Option String) (settings : Settings)
    (hook : Compiled → Except RunError Unit) :
    let run := compileStream (paced reads writes) input output moduleName settings
      fun m => registering (hook m) m
    s.Effects input output moduleName settings hook (run s).1 (run s).2 ∧
      ∀ other : Reader, other.left = s.reader.left → other.failure = s.reader.failure →
        run { s with reader := other } = ((run s).1, { (run s).2 with reader := other }) := by
  rw [paced_eq]
  refine ⟨⟨?_, ?_, ?_, ?_⟩, fun other left failure => compileStream_of_same_bytes left failure⟩
  · intro reason unread
    rw [compileStream_unread unread]
    exact ⟨rfl, s.did_nothing⟩
  · intro source e read compiled
    rw [compileStream_read read, compiled]
    exact ⟨rfl, rfl, rfl, ByteArray.append_empty.symm, rfl⟩
  · intro source m e read compiled refused
    rw [compileStream_read read, compiled]
    dsimp only
    rw [refused]
    exact ⟨rfl, rfl, rfl, ByteArray.append_empty.symm, rfl⟩
  · intro source m read compiled accepted
    rw [compileStream_read read, compiled]
    dsimp only
    rw [accepted]
    exact delivers s input output _ m

example : ((compileStream streamCalls .standardInput .standardOutput none {}
    (fun m => registering (.ok ()) m))
      { compiler := ⟨fun _ => [], fun r => .ok ⟨"", [r.source]⟩⟩,
        reader := { pieces := [⟨#[0xC3]⟩, ⟨#[0xA9]⟩] }, sink := { room := some 0 } }).1 =
    .ok ⟨"", ["é"]⟩ := by rfl

end Session

end ModuleTree
