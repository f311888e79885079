import ModuleTree.Text.Utf8
/- What can be wrong with a JSON text, and where. -/
namespace ModuleTree.Json

inductive Problem where
  | endInList
  | endInObject
  | endInString
  | endInValue
  | expectedColon
  | expectedListEnd
  | expectedObjectEnd
  | expectedIdent
  | expectedValue
  | invalidEscape
  | invalidNumber
  | numberOutOfRange
  | controlCharacter
  | keyNotString
  | loneSurrogate
  | unpairedSurrogate
  | trailingComma
  | trailingCharacters
  | unfit (message : String)
  deriving DecidableEq, Repr

inductive Category where
  | unfinished
  | malformed
  | unfit
  deriving DecidableEq, Repr

namespace Problem

def category : Problem → Category
  | endInList | endInObject | endInString | endInValue => .unfinished
  | unfit _ => .unfit
  | _ => .malformed

def message : Problem → String
  | endInList => "EOF while parsing a list"
  | endInObject => "EOF while parsing an object"
  | endInString => "EOF while parsing a string"
  | endInValue => "EOF while parsing a value"
  | expectedColon => "expected `:`"
  | expectedListEnd => "expected `,` or `]`"
  | expectedObjectEnd => "expected `,` or `\x7d`"
  | expectedIdent => "expected ident"
  | expectedValue => "expected value"
  | invalidEscape => "invalid escape"
  | invalidNumber => "invalid number"
  | numberOutOfRange => "number out of range"
  | controlCharacter => "control character (\\u0000-\\u001F) found while parsing a string"
  | keyNotString => "key must be a string"
  | loneSurrogate => "lone leading surrogate in hex escape"
  | unpairedSurrogate => "unexpected end of hex escape"
  | trailingComma => "trailing comma"
  | trailingCharacters => "trailing characters"
  | unfit message => message

end Problem

/-- A problem before the unread text `rest`, of which `ahead` bytes count as read. -/
structure Fault where
  problem : Problem
  rest : List Char
  ahead : Nat := 0
  deriving DecidableEq, Repr

namespace Fault

def next (problem : Problem) (rest : List Char) : Fault := ⟨problem, rest, min 1 rest.length⟩

def place (fault : Fault) (text : String) : Nat × Nat :=
  let bytes := Text.encode text
  let read := bytes.take (bytes.length - Text.size fault.rest + fault.ahead)
  (1 + read.count 0x0A, (read.reverse.takeWhile (· ≠ 0x0A)).length)

def message (fault : Fault) (text : String) : String :=
  let (line, column) := fault.place text
  s!"{fault.problem.message} at line {line} column {column}"

end Fault

abbrev Read (α : Type) := Except Fault (α × List Char)

end ModuleTree.Json
