import ModuleTree.Error
import ModuleTree.Text.Words
/- How a run that failed says so. -/
namespace ModuleTree.RunError

def soleCause (c : Cause) : String := "\n    " ++ Text.hang 4 c.message

def numberedCause (c : Cause) (number : Nat) : String :=
  "\n" ++ Text.rightColumn 5 (toString number) ++ ": " ++ Text.hang 7 c.message

def causeLines : List Cause → String
  | [] => ""
  | [c] => "\n\nCaused by:" ++ soleCause c
  | causes =>
    "\n\nCaused by:" ++ String.join (causes.zipIdx.map fun (c, number) => numberedCause c number)

def report (e : RunError) : String := "Error: " ++ e.message ++ causeLines e.causes ++ "\n"

def summary (e : RunError) : String :=
  ": ".intercalate (e.message :: e.causes.map Cause.message)

end ModuleTree.RunError
