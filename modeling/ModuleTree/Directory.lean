import ModuleTree.Procedure
/- Making sure that a directory is there, together with the directories above it. -/
namespace ModuleTree

namespace Path

def Layout.weight (l : Layout) : Nat := l.body.length + if l.lead = some .here then 1 else 0

theorem Layout.parent?_weight_lt {l parent : Layout} (h : l.parent? = some parent) :
    parent.weight < l.weight := by
  unfold Layout.parent? at h
  split at h
  · rename_i body drop
    have := dropLastComponent?_length_lt drop
    simp only [Option.some.injEq] at h
    subst h
    simp only [Layout.weight]
    omega
  · split at h
    · rename_i here
      simp only [Option.some.injEq] at h
      subst h
      simp [Layout.weight, here]
    · simp at h

def Layout.ancestors (l : Layout) : List Layout :=
  match _h : l.parent? with
  | none => []
  | some parent => parent :: parent.ancestors
  termination_by l.weight
  decreasing_by exact Layout.parent?_weight_lt _h

def chain (p : Path) : List Path := p :: p.layout.ancestors.map Layout.toPath

end Path

/-- Creates one directory. It does not matter who created it, as long as it is there. -/
def createDirectory (p : Path) : Procedure (Except StreamError Unit) := do
  .call (.note ⟨.trace, .directory, s!"creating directory {p.quoted}"⟩)
  match ← .call (.makeDirectory p) with
  | .ok () => return .ok ()
  | .error .alreadyExists =>
    if ← .call (.isDirectory p) then return .ok ()
    else return .error ⟨.file p, .createDirectory, .alreadyExists⟩
  | .error e => return .error ⟨.file p, .createDirectory, e⟩

/-- Creates the first path of a chain after those behind it, up to one that exists. -/
def ensureChain : List Path → Procedure (Except StreamError Unit)
  | [] => .done (.ok ())
  | p :: parents =>
    if p.isEmpty then .done (.ok ())
    else do
      if ← .call (.pathExists p) then return .ok ()
      else
        match ← ensureChain parents with
        | .error e => return .error e
        | .ok () => createDirectory p

def ensureDirectory (p : Path) : Procedure (Except StreamError Unit) := ensureChain p.chain

end ModuleTree
