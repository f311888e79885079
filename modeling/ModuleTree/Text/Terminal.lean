/- Texts as they reach a reader who is no terminal: without escape sequences and without
   control characters other than white space. -/
namespace ModuleTree.Text

/-- How far an escape sequence has come. Every sequence starts with the escape character,
and `ground` lies outside of all of them. -/
inductive EscapeState where
  | ground
  | escape
  | intermediate
  | control
  | controlIntermediate
  | controlIgnored
  | command
  | string
  deriving DecidableEq, Repr

namespace EscapeState

def isText : EscapeState → Bool
  | command | string => true
  | _ => false

def isLayout (c : Char) : Bool := c = '\t' || c = '\n' || c = '\x0c' || c = '\r'

def isPlain (c : Char) : Bool := ' ' ≤ c && c ≠ '\x7f' || isLayout c

def lets (s : EscapeState) (c : Char) : Bool :=
  if s = ground then isPlain c else isLayout c && !s.isText

def endsControl (c : Char) : Bool := '@' ≤ c && c ≤ '~'

def isIntermediate (c : Char) : Bool := ' ' ≤ c && c ≤ '/'

def next (s : EscapeState) (c : Char) : EscapeState :=
  if c = '\x1b' then escape
  else if c = '\x18' || c = '\x1a' then ground
  else
    match s with
    | ground => ground
    | escape =>
      if isIntermediate c then intermediate
      else if c = '[' then control
      else if c = ']' then command
      else if c = 'P' || c = 'X' || c = '^' || c = '_' then string
      else if '0' ≤ c && c ≤ '~' then ground
      else escape
    | intermediate => if '0' ≤ c && c ≤ '~' then ground else intermediate
    | control =>
      if isIntermediate c then controlIntermediate else if endsControl c then ground else control
    | controlIntermediate =>
      if '0' ≤ c && c ≤ '?' then controlIgnored
      else if endsControl c then ground
      else controlIntermediate
    | controlIgnored => if endsControl c then ground else controlIgnored
    | command => if c = '\x07' then ground else command
    | string => if (String.utf8EncodeChar c).contains 0x9C then ground else string

end EscapeState

/-- What is seen of a text. Once something is seen everything plain after it is, up to the
next character that is not. -/
def visibleFrom (s : EscapeState) (seeing : Bool) : List Char → List Char
  | [] => []
  | c :: rest =>
    if seeing && EscapeState.isPlain c || s.lets c then
      c :: visibleFrom (if c ≤ '\x7f' then s else .ground) true rest
    else visibleFrom (s.next c) false rest

def visible (text : String) : String := String.ofList (visibleFrom .ground false text.toList)

end ModuleTree.Text
