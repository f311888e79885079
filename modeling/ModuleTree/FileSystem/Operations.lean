import ModuleTree.FileSystem.Resolve
/- What can be done to files, directories and links by their paths. -/
namespace ModuleTree.FileSystem

def openNode (fs : FileSystem) (id : NodeId) : Except IoError NodeId :=
  if fs.isLocked id then .error .permissionDenied else .ok id

/-- Opens for reading. A directory opens, although it cannot be read. -/
def openFile (fs : FileSystem) (p : Path) : Except IoError NodeId :=
  match fs.resolve p with
  | .error e => .error e
  | .ok id => fs.openNode id

def readNode (fs : FileSystem) (id : NodeId) : Except IoError ByteArray :=
  match fs.node? id with
  | some (.file content) => .ok content
  | some (.directory _ _) => .error .isADirectory
  | _ => .ok .empty

/-- Writes from the start of a node; what lies beyond stays. -/
def writeNode (fs : FileSystem) (id : NodeId) (bytes : ByteArray) : FileSystem :=
  match fs.node? id with
  | some (.file content) =>
    fs.setNode id (.file (bytes ++ content.extract bytes.size content.size))
  | _ => fs

def truncate (fs : FileSystem) (id : NodeId) : Except IoError (NodeId × FileSystem) :=
  match fs.node? id with
  | some (.directory _ _) => .error .isADirectory
  | some (.file _) =>
    if fs.isLocked id then .error .permissionDenied else .ok (id, fs.setNode id (.file .empty))
  | _ => if fs.isLocked id then .error .permissionDenied else .ok (id, fs)

/-- Creates a file or empties the one that is there. A slash at the end asks for what
no file can be. -/
def createFile (fs : FileSystem) (p : Path) : Except IoError (NodeId × FileSystem) :=
  if p.endsInSlash then
    match fs.spot true p (p.segmentNames.dropLast.map .name ++ [.name [Path.dot]]) with
    | .error e => .error e
    | .ok _ => .error .isADirectory
  else
    match fs.spot true p p.segments with
    | .error e => .error e
    | .ok (.node id) => fs.truncate id
    | .ok (.gap _ _ true) => .error .isADirectory
    | .ok (.gap directory name false) => .ok (fs.addNode directory name (.file .empty))

def addEntry (fs : FileSystem) (p : Path) (make : NodeId → Node) : Except IoError FileSystem :=
  match fs.spot false p (p.segmentNames.map .name) with
  | .error e => .error e
  | .ok (.node _) => .error .alreadyExists
  | .ok (.gap directory name _) => .ok (fs.addNode directory name (make directory)).2

def makeDirectory (fs : FileSystem) (p : Path) : Except IoError FileSystem :=
  fs.addEntry p fun parent => .directory parent []

def makeLink (fs : FileSystem) (p target : Path) : Except IoError FileSystem :=
  fs.addEntry p fun _ => .link target

def makeSpecial (fs : FileSystem) (p : Path) : Except IoError FileSystem :=
  fs.addEntry p fun _ => .special

def remove (fs : FileSystem) (p : Path) : FileSystem :=
  match p.segmentNames.getLast? with
  | none => fs
  | some name =>
    match fs.follow true linkLimit (fs.start p) (p.segmentNames.dropLast.map .name) with
    | .ok (.node directory) => fs.dropEntry directory name
    | _ => fs

def writeFile (fs : FileSystem) (p : Path) (content : ByteArray) : Except IoError FileSystem :=
  (fs.createFile p).map fun (id, fs) => fs.writeNode id content

def readDirectory (fs : FileSystem) (p : Path) : Except IoError (List (Bytes × NodeId)) :=
  match fs.openFile p with
  | .error e => .error e
  | .ok id =>
    if fs.isDirectoryNode id then .ok (fs.entries id) else .error .notADirectory

end ModuleTree.FileSystem
