import ModuleTree.Path.Basic
/- Paths relative to the root under which they were found. -/
namespace ModuleTree.Path

def dropComponents : Nat → List Bytes → List Bytes
  | 0, body => body
  | _ + 1, [] => []
  | n + 1, piece :: body =>
    if isSilent piece then dropComponents (n + 1) body else dropComponents n body

/-- The path behind its first `count` components. What is left starts and ends with a
component, and keeps its inner spelling; with nothing taken away only the end is trimmed. -/
def Layout.behind (l : Layout) (count : Nat) : Layout :=
  if count = 0 then ⟨l.lead, trimRight l.body⟩
  else
    let rest := dropComponents (count - l.lead.toList.length) l.body
    ⟨none, trimRight (rest.dropWhile isSilent)⟩

def stripPrefix? (p base : Path) : Option Path :=
  if base.components.isPrefixOf p.components then
    some (p.layout.behind base.components.length).toPath
  else none

structure StripError where
  path : Path
  root : Path
  deriving DecidableEq, Repr

def StripError.message (e : StripError) : String :=
  s!"cannot strip input root {e.root.quoted} from path {e.path.quoted}"

/-- What a file under `root` is relative to. A root that is a file itself is relative to
its parent. -/
def base (root : Path) (rootIsFile : Bool) : Path :=
  if rootIsFile then root.parent?.getD root else root

def relativeToRoot (root : Path) (rootIsFile : Bool) (path : Path) : Except StripError Path :=
  match path.stripPrefix? (base root rootIsFile) with
  | some rest => .ok rest
  | none => .error ⟨path, base root rootIsFile⟩

end ModuleTree.Path
