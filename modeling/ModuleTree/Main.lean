import ModuleTree.CommandLine.Run
import ModuleTree.FileSystem.Listing
/- The program. It works on a picture of the working directory, in which links lead to
   where they lead and what cannot be read is locked, and then brings the directory into
   line with the picture. -/
namespace ModuleTree.Picture

def nowhere : Path := Path.ofString "/.nowhere"

def kept (fs : FileSystem) (changed : Except IoError FileSystem) : FileSystem :=
  match changed with
  | .ok fs => fs
  | .error _ => fs

def lock (fs : FileSystem) (p : Path) : FileSystem :=
  match fs.resolve p with
  | .ok id => { fs with locked := id :: fs.locked }
  | .error _ => fs

def changes (before after : FileSystem) : List (Bytes × Node) :=
  let old := before.listing
  after.listing.filter fun entry => !old.any fun o => o.1 = entry.1 && o.2 = entry.2

partial def add (fs : FileSystem) (entry : IO.FS.DirEntry) : IO FileSystem := do
  let p := Path.ofString entry.path.toString
  match (← entry.path.symlinkMetadata).type with
  | .dir =>
    let fs := kept fs (fs.makeDirectory p)
    match ← entry.path.readDir.toBaseIO with
    | .ok entries => entries.foldlM add fs
    | .error _ => return lock fs p
  | .file =>
    match ← (IO.FS.readBinFile entry.path).toBaseIO with
    | .ok content => return kept fs (fs.writeFile p content)
    | .error _ => return lock (kept fs (fs.writeFile p .empty)) p
  | .symlink =>
    match ← (IO.FS.realPath entry.path).toBaseIO with
    | .ok target => return kept fs (fs.makeLink p (Path.ofString target.toString))
    | .error _ => return kept fs (fs.makeLink p nowhere)
  | .other => return kept fs (fs.makeSpecial p)

def take : IO FileSystem := do
  let home ← IO.currentDir
  let p := Path.ofString home.toString
  let around := p.chain.reverse.foldl (fun fs p => kept fs (fs.makeDirectory p)) FileSystem.empty
  let fs := match around.resolve p with
    | .ok id => { around with home := id }
    | .error _ => around
  (← home.readDir).foldlM add fs

def put (entry : Bytes × Node) : IO Unit :=
  match String.fromUTF8? ⟨entry.1.toArray⟩, entry.2 with
  | some p, .directory _ _ => IO.FS.createDirAll p
  | some p, .file content => IO.FS.writeBinFile p content
  | _, _ => pure ()

partial def readAll (input : IO.FS.Stream) (read : ByteArray) : IO ByteArray := do
  let piece ← input.read 65536
  if piece.isEmpty then return read
  readAll input (read ++ piece)

def inputFor (arguments : List String) : IO ByteArray := do
  match Invocation.ofArguments arguments with
  | .ok ⟨.stream _, _⟩ => readAll (← IO.getStdin) .empty
  | _ => return .empty

end ModuleTree.Picture

open ModuleTree in
def main (arguments : List String) : IO UInt32 := do
  let before ← Picture.take
  let s : CommandLine.Surroundings :=
    ⟨before, ← Picture.inputFor arguments, ← IO.getEnv "RUST_LOG"⟩
  let o := CommandLine.run arguments s
  (Picture.changes before o.files).forM Picture.put
  (← IO.getStderr).putStr (CommandLine.errorStream s o)
  let output ← IO.getStdout
  output.write o.output
  output.flush
  return o.status.toUInt32
