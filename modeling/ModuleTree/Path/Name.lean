import ModuleTree.Path.Basic
/- Module names taken from paths. -/
namespace ModuleTree.Path
open Text

def moduleName (names : List Bytes) : String := "/".intercalate (names.map lossy)

def normalize (p : Path) : String := moduleName p.names

/-- A name up to its last dot. A dot in front does not count, and neither do the two
dots of the parent directory. -/
def stem (name : Bytes) : Bytes :=
  if name = [dot, dot] then name
  else
    match name.reverse.dropWhile (· ≠ dot) with
    | [] => name
    | _ :: front => if front = [] then name else front.reverse

/-- The path up to the stem of its last name, with nothing of what is written behind it. A path
that does not end in a name is left as it is. -/
def withoutExtension (p : Path) : Path :=
  match p.fileName? with
  | none => p
  | some name =>
    let upTo := (⟨p.layout.lead, trimRight p.layout.body⟩ : Layout).toPath.bytes
    ⟨upTo.take (upTo.length - (name.length - (stem name).length))⟩

def inferModuleName (p : Path) : String := p.withoutExtension.normalize

def isHidden (name : Bytes) : Bool := name.head? = some dot

end ModuleTree.Path
