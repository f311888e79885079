/- The conventions by which a compiled module is wrapped. -/
namespace ModuleTree

inductive Format where
  | amd
  | yui
  | cjs
  | globals
  deriving DecidableEq, Repr

namespace Format

instance : Inhabited Format := ⟨amd⟩

def text : Format → String
  | amd => "amd"
  | yui => "yui"
  | cjs => "cjs"
  | globals => "globals"

def ofText? : String → Option Format
  | "amd" => some amd
  | "yui" => some yui
  | "cjs" => some cjs
  | "globals" => some globals
  | _ => none

def isNamed : Format → Bool
  | amd | yui => true
  | cjs | globals => false

end Format

end ModuleTree
