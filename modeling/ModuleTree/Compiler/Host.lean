import ModuleTree.Compiler.Command
import ModuleTree.FileSystem.Operations
import ModuleTree.Shell.Evaluator
/- The programs of a plain system, and how they are found. -/
namespace ModuleTree.Host

def fileOf (fs : FileSystem) : Shell.Files := fun name =>
  if name = Text.encode "/dev/null" then .ok []
  else
    ((fs.openFile ⟨name⟩).bind fs.readNode).map ByteArray.toList

def depth : Nat := 32

def programs (fs : FileSystem) : Shell.Programs := Shell.programsTo (fileOf fs) depth

/-- A program by its path is none that could be started, unless it is one of the system. -/
def byPath (fs : FileSystem) (program : String) : Except IoError (List Bytes → Bytes → Shell.Outcome) :=
  let name := Shell.programName program
  match if name = program then none else programs fs name with
  | some run => .ok run
  | none =>
    match fs.resolve (Path.ofString program) with
    | .error e => .error e
    | .ok _ => .error .permissionDenied

def find (fs : FileSystem) (program : String) : Except IoError (List Bytes → Bytes → Shell.Outcome) :=
  if program.isEmpty then .error .notFound
  else if program.contains '/' then byPath fs program
  else if program = "." || program = ".." then .error .permissionDenied
  else if FileSystem.nameLimit < program.utf8ByteSize then .error .nameTooLong
  else
    match programs fs program with
    | some run => .ok run
    | none => .error .notFound

def spawn (fs : FileSystem) : Spawn := fun program arguments input =>
  if (program :: arguments).any (·.contains '\x00') then .error .nulByte
  else
    match find fs program with
    | .error e => .error e
    | .ok run => .ok (run (arguments.map Text.encode) input)

end ModuleTree.Host
