import ModuleTree.Text.Quoted
/- JSON texts laid out over lines, two blanks deeper for each enclosing bracket. -/
namespace ModuleTree.Json

/-- A character inside a string. Only quotes, backslashes and controls are escaped. -/
def writeChar (c : Char) : List Char :=
  if c = '"' then ['\\', '"']
  else if c = '\\' then ['\\', '\\']
  else if c = '\x08' then ['\\', 'b']
  else if c = '\x0C' then ['\\', 'f']
  else if c = '\n' then ['\\', 'n']
  else if c = '\r' then ['\\', 'r']
  else if c = '\t' then ['\\', 't']
  else if c < ' ' then
    ['\\', 'u', '0', '0', Text.hexDigit false (c.toNat / 16), Text.hexDigit false (c.toNat % 16)]
  else [c]

def writeString (text : String) : List Char := '"' :: text.toList.flatMap writeChar ++ ['"']

def indent (depth : Nat) : List Char := '\n' :: List.replicate (2 * depth) ' '

def writeItems (opening closing : Char) (depth : Nat) (items : List (List Char)) : List Char :=
  match items with
  | [] => [opening, closing]
  | first :: rest =>
    opening :: indent (depth + 1) ++ first
      ++ rest.flatMap (fun item => ',' :: indent (depth + 1) ++ item)
      ++ indent depth ++ [closing]

def writeMember (key : String) (value : List Char) : List Char :=
  writeString key ++ ':' :: ' ' :: value

def writeStrings (depth : Nat) (texts : List String) : List Char :=
  writeItems '[' ']' depth (texts.map writeString)

end ModuleTree.Json
