import ModuleTree.Dictionary
import ModuleTree.Text.Words
/- Import maps: from the path of an external module to the global it is exposed as.
   Written as `path:global` pairs between commas. -/
namespace ModuleTree

abbrev ImportMap := Dictionary String

namespace ImportMap

def ofPiece? (piece : List Char) : Option (String × String) :=
  let path := piece.takeWhile (· ≠ ':')
  match piece.dropWhile (· ≠ ':') with
  | _ :: global =>
    if path.isEmpty || global.isEmpty then none
    else some (String.ofList path, String.ofList global)
  | [] => none

def pairs : List (List Char) → Except String (List (String × String))
  | [] => .ok []
  | piece :: rest =>
    match ofPiece? piece with
    | none => .error (String.ofList piece)
    | some pair =>
      match pairs rest with
      | .ok more => .ok (pair :: more)
      | .error bad => .error bad

/-- Reads a map; empty pieces are passed over and the last pair of a path counts.
A text that is no map gives its first bad piece. -/
def ofText (text : String) : Except String ImportMap :=
  (pairs ((Text.split ',' text.toList).filter (!·.isEmpty))).map Dictionary.ofList

def text (m : ImportMap) : String :=
  ",".intercalate (m.entries.map fun pair => pair.1 ++ ":" ++ pair.2)

end ImportMap

end ModuleTree
