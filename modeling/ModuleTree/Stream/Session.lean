import ModuleTree.Stream.Compile
import ModuleTree.Run.World
/- Streams with a life of their own: readers that give a text in pieces and may fail, and
   sinks that take so much and no more. -/
namespace ModuleTree

structure Reader where
  pieces : List ByteArray
  failure : Option IoError := none

def Reader.readAll (r : Reader) : Except IoError ByteArray :=
  match r.failure with
  | some e => .error e
  | none => .ok (r.pieces.foldl (· ++ ·) .empty)

structure Sink where
  written : ByteArray := .empty
  room : Option Nat := none
  flushFailure : Option IoError := none
  flushes : Nat := 0

namespace Sink

def full : IoError := .other "no room left"

def accepted (s : Sink) (bytes : ByteArray) : ByteArray :=
  match s.room with
  | none => bytes
  | some room => bytes.extract 0 room

def fill (s : Sink) (taken : ByteArray) : Sink :=
  { s with written := s.written ++ taken, room := s.room.map (· - taken.size) }

def flush (s : Sink) : Except IoError Unit × Sink :=
  (match s.flushFailure with
    | some e => .error e
    | none => .ok (), { s with flushes := s.flushes + 1 })

def writeAll (s : Sink) (bytes : ByteArray) : Except IoError Unit × Sink :=
  let taken := s.accepted bytes
  if taken.size = bytes.size then (s.fill taken).flush else (.error full, s.fill taken)

end Sink

structure Session where
  compiler : Compiler
  reader : Reader
  sink : Sink := {}
  asked : List Request := []
  registered : List Compiled := []
  log : List Notice := []

namespace Session

def calls (s : Session) : Nat := s.asked.length

def note (s : Session) (notice : Notice) : Session := { s with log := notice :: s.log }

def compiling (s : Session) (request : Request) : Except CompileError Compiled × Session :=
  (s.compiler.compile request,
    { s with asked := request :: s.asked, log := (s.compiler.announce request).reverse ++ s.log })

def writing (s : Session) (bytes : ByteArray) : Except IoError Unit × Session :=
  let (outcome, sink) := s.sink.writeAll bytes
  (outcome, { s with sink })

def streamCalls : StreamCalls (StateM Session) where
  readAll := fun s => (s.reader.readAll, s)
  compile := fun request s => s.compiling request
  writeAll := fun bytes s => s.writing bytes
  note := fun notice s => ((), s.note notice)

def registering (verdict : Except RunError Unit) (compiled : Compiled) :
    StateM Session (Except RunError Unit) :=
  fun s => (verdict, { s with registered := compiled :: s.registered })

end Session

end ModuleTree
