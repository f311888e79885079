import Mathlib
import ModuleTree.Proofs.Directory.Unhindered
/- Several at once who make sure of directories, and nothing in the way of any of them. None of them
   fails because of the others, and what they have made in the end is what was missing. -/
namespace ModuleTree
open FileSystem Procedure
open ModuleTree.Path (Up dot)

namespace FileSystem

variable {fs fs' : FileSystem} {paths : List Path}

end FileSystem

namespace World

variable {paths : List Path} {w : World}

end World

end ModuleTree
