import ModuleTree.Text.Utf8
/- Shell scripts as trees. -/
namespace ModuleTree.Shell

inductive Edit where
  | cutEnd (longest : Bool)
  | cutStart (longest : Bool)
  | fallback (orEmpty : Bool)
  | assign (orEmpty : Bool)
  | replace (orEmpty : Bool)
  | demand (orEmpty : Bool)
  deriving DecidableEq, Repr

def Edit.isCut : Edit → Bool
  | cutEnd _ | cutStart _ => true
  | fallback _ | assign _ | replace _ | demand _ => false

inductive Target where
  | same (descriptor : Nat)
  | closed
  | path (bytes : Bytes)
  deriving DecidableEq, Repr

structure Redirect where
  descriptor : Nat
  target : Target
  deriving DecidableEq, Repr

mutual

inductive Word where
  | nil
  | literal (bytes : Bytes) (quoted : Bool) (rest : Word)
  | value (name : String) (quoted : Bool) (rest : Word)
  | size (name : String) (quoted : Bool) (rest : Word)
  | edited (name : String) (edit : Edit) (operand : Word) (quoted : Bool) (rest : Word)
  | output (script : Script) (quoted : Bool) (rest : Word)
  | sum (text : Word) (quoted : Bool) (rest : Word)

inductive Words where
  | nil
  | cons (first : Word) (rest : Words)

inductive Assignments where
  | nil
  | cons (name : String) (value : Word) (rest : Assignments)

inductive Cases where
  | nil
  | cons (patterns : Words) (body : Script) (rest : Cases)

inductive Script where
  | nil
  | simple (assignments : Assignments) (words : Words)
  | sequence (first second : Script)
  | both (first second : Script)
  | either (first second : Script)
  | negated (body : Script)
  | piped (first second : Script)
  | each (name : String) (words : Words) (body : Script)
  | choose (word : Word) (cases : Cases)
  | branch (test body otherwise : Script)
  | loop (wanted : Bool) (test body : Script)
  | define (name : String) (body : Script)
  | subshell (body : Script)
  | background (body : Script)
  | redirected (body : Script) (redirects : List Redirect)

end

namespace Word

def append : Word → Word → Word
  | nil, w => w
  | literal bytes quoted rest, w => literal bytes quoted (rest.append w)
  | value name quoted rest, w => value name quoted (rest.append w)
  | size name quoted rest, w => size name quoted (rest.append w)
  | edited name edit operand quoted rest, w => edited name edit operand quoted (rest.append w)
  | output script quoted rest, w => output script quoted (rest.append w)
  | sum text quoted rest, w => sum text quoted (rest.append w)

def plain? : Word → Option Bytes
  | nil => some []
  | literal bytes _ rest => rest.plain?.map (bytes ++ ·)
  | _ => none

def unquoted? : Word → Option Bytes
  | nil => some []
  | literal bytes false rest => rest.unquoted?.map (bytes ++ ·)
  | _ => none

end Word

def Words.ofList : List Word → Words
  | [] => .nil
  | w :: rest => .cons w (ofList rest)

def Assignments.ofList : List (String × Word) → Assignments
  | [] => .nil
  | (name, w) :: rest => .cons name w (ofList rest)

end ModuleTree.Shell
