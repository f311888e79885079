import ModuleTree.FileSystem.Basic
/- Following a path to what it names. -/
namespace ModuleTree

inductive Segment where
  | name (bytes : Bytes)
  | directoryOnly
  deriving DecidableEq, Repr

namespace Path

def segmentNames (p : Path) : List Bytes := (split p.bytes).filter (· ≠ [])

def endsInSlash (p : Path) : Bool := p.bytes.getLast? = some slash

def segments (p : Path) : List Segment :=
  let names := p.segmentNames.map Segment.name
  if p.endsInSlash then names ++ [.directoryOnly] else names

end Path

namespace FileSystem

def nameLimit : Nat := 255
def pathLimit : Nat := 4096
def linkLimit : Nat := 40

/-- Where a path leads: to a node, or to a name that an open directory does not hold. -/
inductive Spot where
  | node (id : NodeId)
  | gap (directory : NodeId) (name : Bytes) (slashed : Bool)
  deriving DecidableEq, Repr

def enter (fs : FileSystem) (current : NodeId) (name : Bytes) : Except IoError (Option NodeId) :=
  match fs.node? current with
  | some (.directory parent entries) =>
    if fs.isLocked current then .error .permissionDenied
    else if name = [Path.dot] then .ok (some current)
    else if name = [Path.dot, Path.dot] then .ok (some parent)
    else if nameLimit < name.length then .error .nameTooLong
    else .ok (entries.lookup name)
  | _ => .error .notADirectory

/-- Follows the steps of a path, links in its middle always and a link at its end on
demand. No more than `budget` links are followed. -/
def follow (fs : FileSystem) (lastLink : Bool) :
    (budget : Nat) → NodeId → List Segment → Except IoError Spot
  | _, current, [] => .ok (.node current)
  | budget, current, .directoryOnly :: rest =>
    if fs.isDirectoryNode current then follow fs lastLink budget current rest
    else .error .notADirectory
  | budget, current, .name name :: rest =>
    match fs.enter current name with
    | .error e => .error e
    | .ok none =>
      if rest.all (· = .directoryOnly) then .ok (.gap current name (!rest.isEmpty))
      else .error .notFound
    | .ok (some id) =>
      match fs.node? id with
      | some (.link target) =>
        if rest.isEmpty && !lastLink then .ok (.node id)
        else
          match budget with
          | 0 => .error .tooManyLinks
          | budget + 1 =>
            follow fs lastLink budget (if target.isAbsolute then fs.root else current)
              (target.segments ++ rest)
      | _ => follow fs lastLink budget id rest
  termination_by budget _ segments => (budget, segments.length)

def refuse? (p : Path) : Option IoError :=
  if p.bytes.contains 0 then some .nulByte
  else if p.isEmpty then some .notFound
  else if pathLimit ≤ p.bytes.length then some .nameTooLong
  else none

def start (fs : FileSystem) (p : Path) : NodeId := if p.isAbsolute then fs.root else fs.home

def spot (fs : FileSystem) (lastLink : Bool) (p : Path) (segments : List Segment) :
    Except IoError Spot :=
  match refuse? p with
  | some e => .error e
  | none => fs.follow lastLink linkLimit (fs.start p) segments

def resolveWith (fs : FileSystem) (lastLink : Bool) (p : Path) : Except IoError NodeId :=
  match fs.spot lastLink p p.segments with
  | .error e => .error e
  | .ok (.node id) => .ok id
  | .ok (.gap _ _ _) => .error .notFound

def resolve (fs : FileSystem) (p : Path) : Except IoError NodeId := fs.resolveWith true p

def resolveLink (fs : FileSystem) (p : Path) : Except IoError NodeId := fs.resolveWith false p

def pathExists (fs : FileSystem) (p : Path) : Bool := (fs.resolve p).isOk

def isDirectory (fs : FileSystem) (p : Path) : Bool :=
  match fs.resolve p with
  | .ok id => fs.isDirectoryNode id
  | .error _ => false

end FileSystem

end ModuleTree
