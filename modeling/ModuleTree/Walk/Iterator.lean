import ModuleTree.Walk.Tour
/- A walk over roots that gives one file at a time. It holds the directories it stands in, each
   with the entries that are still to come, and looks at one entry after another until one of
   them is a file. -/
namespace ModuleTree

structure OpenDirectory where
  id : NodeId
  path : Path
  left : List (Bytes × NodeId)
  deriving DecidableEq, Repr

/-- Where a walk stands below a root: not yet there, or in directories, the innermost first. -/
structure Course where
  root : Path
  stack : Option (List OpenDirectory) := none
  deriving DecidableEq, Repr

structure Walk where
  current : Option Course := none
  roots : List Path
  failed : Bool := false
  deriving DecidableEq, Repr, Inhabited

namespace Course

def trail (stack : List OpenDirectory) : Trail :=
  stack.map fun directory => (directory.id, directory.path)

def land (root : Path) (stack : List OpenDirectory) (path : Path) :
    Tour.Arrival → Option Visit × Course
  | .pass visit => (some visit, ⟨root, some stack⟩)
  | .inside id entries => (none, ⟨root, some (⟨id, path, entries⟩ :: stack)⟩)

/-- One step: into the root, to the next entry, or out of a directory that has none left. A
course that has left its root makes no more steps. -/
def advance (fs : FileSystem) (c : Course) : Option (Except WalkError (Option Visit × Course)) :=
  match c.stack with
  | none => some ((Tour.enterRoot fs c.root).map (land c.root [] c.root))
  | some [] => none
  | some (⟨_, _, []⟩ :: around) => some (.ok (none, ⟨c.root, some around⟩))
  | some (⟨id, path, (name, child) :: left⟩ :: around) =>
    let stack := ⟨id, path, left⟩ :: around
    some ((Tour.arrive fs c.root (trail stack) (Path.isHidden name) (path.child name) child).map
      (land c.root stack (path.child name)))

end Course

namespace Walk

abbrev Item := Except WalkError Found

inductive Advance where
  | on (walk : Walk)
  | answer (item : Option Item) (walk : Walk)

def ofRoots (roots : List Path) : Walk := ⟨none, roots, false⟩

def advance (fs : FileSystem) (w : Walk) : Advance :=
  if w.failed then .answer none w
  else
    match w.current with
    | none =>
      match w.roots with
      | [] => .answer none w
      | root :: roots => .on ⟨some ⟨root, none⟩, roots, false⟩
    | some course =>
      match course.advance fs with
      | none => .on ⟨none, w.roots, false⟩
      | some (.error e) => .answer (some (.error e)) ⟨none, w.roots, true⟩
      | some (.ok (visit, course)) =>
        let walk : Walk := ⟨some course, w.roots, false⟩
        match visit.bind Tour.Visit.found? with
        | some found => .answer (some (.ok found)) walk
        | none => .on walk

def next (fs : FileSystem) (w : Walk) : Option Item × Walk :=
  Id.run <| repeatM (fun w =>
    match advance fs w with
    | .on w => pure (.inl w)
    | .answer item w => pure (.inr (item, w))) w

def text (w : Walk) : String :=
  let current := match w.current with
    | some course => "Some(" ++ course.root.quoted ++ ")"
    | none => "None"
  let roots := ", ".intercalate (w.roots.map Path.quoted)
  s!"Walk \x7b current: {current}, roots: [{roots}], failed: {w.failed} \x7d"

end Walk

end ModuleTree
