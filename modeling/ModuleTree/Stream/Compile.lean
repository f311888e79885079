import ModuleTree.Procedure
/- Compiling one stream into another. The source is read in full before the compiler sees
   it, and nothing is written before the module is accepted by whoever keeps count. -/
namespace ModuleTree

structure StreamCalls (m : Type → Type) where
  readAll : m (Except IoError ByteArray)
  compile : Request → m (Except CompileError Compiled)
  writeAll : ByteArray → m (Except IoError Unit)
  note : Notice → m Unit

variable {m : Type → Type} [Monad m]

def readSource (calls : StreamCalls m) (input : Endpoint) : m (Except RunError String) := do
  match ← calls.readAll with
  | .error e => return .error (.stream ⟨input, .readAll, e⟩)
  | .ok bytes =>
    match String.fromUTF8? bytes with
    | none => return .error (.stream ⟨input, .readAll, .notText⟩)
    | some source =>
      calls.note ⟨.trace, .stream, s!"read {bytes.size} bytes from {input.text}"⟩
      return .ok source

/-- Compiles `input` into `output`. `onCompiled` sees the module before any byte of it is
written, and can refuse it. -/
def compileStream (calls : StreamCalls m) (input output : Endpoint) (moduleName : Option String)
    (settings : Settings) (onCompiled : Compiled → m (Except RunError Unit)) :
    m (Except RunError Compiled) := do
  match ← readSource calls input with
  | .error e => return .error e
  | .ok source =>
    match ← calls.compile ⟨source, moduleName, settings⟩ with
    | .error e => return .error (.compile input e)
    | .ok compiled =>
      match ← onCompiled compiled with
      | .error e => return .error e
      | .ok () =>
        match ← calls.writeAll compiled.code.toUTF8 with
        | .error e => return .error (.stream ⟨output, .writeAll, e⟩)
        | .ok () => return .ok compiled

def compileStandard (calls : StreamCalls m) (settings : Settings) :
    m (Except RunError Compiled) := do
  if settings.graph then
    calls.note ⟨.warn, .run, "--graph has no effect when compiling from standard input"⟩
  compileStream calls .standardInput .standardOutput settings.moduleName settings
    fun _ => pure (.ok ())

end ModuleTree
