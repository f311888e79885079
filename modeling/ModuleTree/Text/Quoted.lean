import ModuleTree.Text.Utf8
import ModuleTree.Text.Printable
/- Quoted texts, as messages show names and paths. -/
namespace ModuleTree.Text

def hexDigit (upper : Bool) (n : Nat) : Char :=
  if n < 10 then Char.ofNat (48 + n) else Char.ofNat ((if upper then 55 else 87) + n)

def hexDigits (n : Nat) : List Char :=
  if n < 16 then [hexDigit false n] else hexDigits (n / 16) ++ [hexDigit false (n % 16)]
  termination_by n
  decreasing_by omega

def quoteChar (c : Char) : List Char :=
  if c = '\x00' then ['\\', '0']
  else if c = '\t' then ['\\', 't']
  else if c = '\r' then ['\\', 'r']
  else if c = '\n' then ['\\', 'n']
  else if c = '\\' || c = '"' then ['\\', c]
  else if isUnprintable c then ['\\', 'u', '\x7b'] ++ hexDigits c.toNat ++ ['\x7d']
  else [c]

def quoteByte (b : UInt8) : List Char :=
  ['\\', 'x', hexDigit true (b.toNat / 16), hexDigit true (b.toNat % 16)]

def quotePiece : Piece → List Char
  | .char c => quoteChar c
  | .broken bytes => bytes.flatMap quoteByte

def enclose (body : List Char) : String := String.ofList ('"' :: body ++ ['"'])

def quoted (text : String) : String := enclose (text.toList.flatMap quoteChar)

def quotedBytes (bytes : Bytes) : String := enclose ((pieces bytes).flatMap quotePiece)

def quotedList (texts : List String) : String :=
  "[" ++ ", ".intercalate (texts.map quoted) ++ "]"

end ModuleTree.Text
