import ModuleTree.Notice
import ModuleTree.Text.Utf8
import ModuleTree.Text.Words
/- Which notices are shown, as a caller spells it: directives between commas, each a level,
   a topic, or a topic and a level; then, behind a slash, a text that has to occur. -/
namespace ModuleTree

/-- The least urgent level that is still shown; without one nothing is. -/
abbrev Threshold := Option Level

def Level.within (level : Level) : Threshold → Bool
  | none => false
  | some least => level.rank ≤ least.rank

def Level.all : List Level := [.error, .warn, .info, .debug, .trace]

def Threshold.ofText? (text : List Char) : Option Threshold :=
  let name := String.ofList (text.map Char.toUpper)
  if name = "OFF" then some none else (Level.all.find? (·.text = name)).map some

structure Directive where
  name : Option (List Char)
  threshold : Threshold
  deriving DecidableEq, Repr

inductive FilterFault where
  | slashes (text : String)
  | directive (text : String)
  deriving DecidableEq, Repr

def FilterFault.message : FilterFault → String
  | slashes text => s!"warning: invalid logging spec '{text}', ignoring it (too many '/'s)"
  | directive text => s!"warning: invalid logging spec '{text}', ignoring it"

namespace Directive

def ofText (text : List Char) : Except FilterFault Directive :=
  match Text.split '=' text with
  | [word] =>
    match Threshold.ofText? word with
    | some threshold => .ok ⟨none, threshold⟩
    | none => .ok ⟨some word, some .trace⟩
  | [name, word] =>
    let word := Text.trim word
    if word.isEmpty then .ok ⟨some name, some .trace⟩
    else
      match Threshold.ofText? word with
      | some threshold => .ok ⟨some name, threshold⟩
      | none => .error (.directive (String.ofList word))
  | _ => .error (.directive (String.ofList text))

def weight (d : Directive) : Nat :=
  match d.name with
  | none => 0
  | some name => Text.size name

def covers (d : Directive) (topic : List Char) : Bool :=
  match d.name with
  | none => true
  | some name => name.isPrefixOf topic

def put (d : Directive) : List Directive → List Directive
  | [] => [d]
  | e :: rest => if e.name = d.name then d :: rest else e :: put d rest

/-- The directive that decides about a topic: of those that cover it one with the longest
name, and the last of these. -/
def deciding? (topic : List Char) (directives : List Directive) : Option Directive :=
  directives.foldl (fun best d =>
    match best with
    | none => if d.covers topic then some d else none
    | some b => if d.covers topic && b.weight ≤ d.weight then some d else some b) none

end Directive

structure NoticeFilter where
  directives : List Directive
  piece : List Char := []
  deriving DecidableEq, Repr

namespace NoticeFilter

def readDirectives : List (List Char) → List Directive → List Directive × List FilterFault
  | [], directives => (directives, [])
  | text :: rest, directives =>
    let text := Text.trim text
    if text.isEmpty then readDirectives rest directives
    else
      match Directive.ofText text with
      | .ok d => readDirectives rest (d.put directives)
      | .error fault =>
        let (directives, faults) := readDirectives rest directives
        (directives, fault :: faults)

def ofDirectives (directives : List Directive) (piece : List Char) : NoticeFilter :=
  if directives.isEmpty then ⟨[⟨none, some .error⟩], piece⟩ else ⟨directives, piece⟩

def ofText (text : String) : NoticeFilter × List FilterFault :=
  let given (directives piece : List Char) :=
    let (directives, faults) := readDirectives (Text.split ',' directives) []
    (ofDirectives directives piece, faults)
  match Text.split '/' text.toList with
  | [directives] => given directives []
  | [directives, piece] => given directives piece
  | _ => (ofDirectives [] [], [.slashes text])

def shows (f : NoticeFilter) (n : Notice) : Bool :=
  match Directive.deciding? n.topic.text.toList f.directives with
  | none => false
  | some d => n.level.within d.threshold && Text.occurs f.piece n.message.toList

end NoticeFilter

def Notice.line (n : Notice) : String :=
  "[" ++ Text.leftColumn 5 n.level.text ++ " " ++ n.topic.text ++ "] " ++ Text.hang 4 n.message ++ "\n"

end ModuleTree
