import ModuleTree.Text.Quoted
/- Slash-separated paths. A path keeps the bytes it was written with; what it names is
   given by its components, which know neither repeated slashes nor inner dots. -/
namespace ModuleTree
open Text

structure Path where
  bytes : Bytes
  deriving DecidableEq, Repr

namespace Path

def slash : UInt8 := 0x2F
def dot : UInt8 := 0x2E

/-- What stands before the pieces of a path: the root, or a written `.` of its own. -/
inductive Lead where
  | root
  | here
  deriving DecidableEq, Repr

inductive Component where
  | root
  | here
  | up
  | name (bytes : Bytes)
  deriving DecidableEq, Repr

def ofString (text : String) : Path := ⟨encode text⟩

def empty : Path := ⟨[]⟩

def isEmpty (p : Path) : Bool := p.bytes.isEmpty

def split : Bytes → List Bytes
  | [] => [[]]
  | b :: bytes =>
    if b = slash then [] :: split bytes
    else
      match split bytes with
      | [] => [[b]]
      | piece :: pieces => (b :: piece) :: pieces

def join : List Bytes → Bytes
  | [] => []
  | [piece] => piece
  | piece :: pieces => piece ++ slash :: join pieces

def ofPiece? (piece : Bytes) : Option Component :=
  if piece = [] || piece = [dot] then none
  else if piece = [dot, dot] then some .up
  else some (.name piece)

def isSilent (piece : Bytes) : Bool := (ofPiece? piece).isNone

structure Layout where
  lead : Option Lead
  body : List Bytes
  deriving DecidableEq, Repr

def layout (p : Path) : Layout :=
  match p.bytes with
  | b :: rest =>
    if b = slash then ⟨some .root, split rest⟩
    else
      match split p.bytes with
      | piece :: pieces => if piece = [dot] then ⟨some .here, pieces⟩ else ⟨none, piece :: pieces⟩
      | [] => ⟨none, []⟩
  | [] => ⟨none, []⟩

def Layout.toPath (l : Layout) : Path :=
  match l.lead with
  | none => ⟨join l.body⟩
  | some .root => ⟨slash :: join l.body⟩
  | some .here => ⟨join ([dot] :: l.body)⟩

def Lead.component : Lead → Component
  | .root => .root
  | .here => .here

def Layout.components (l : Layout) : List Component :=
  l.lead.toList.map Lead.component ++ l.body.filterMap ofPiece?

def components (p : Path) : List Component := p.layout.components

def Component.name? : Component → Option Bytes
  | .name bytes => some bytes
  | _ => none

def names (p : Path) : List Bytes := p.components.filterMap Component.name?

def isAbsolute (p : Path) : Bool := p.bytes.head? = some slash

def trimRight (body : List Bytes) : List Bytes := (body.reverse.dropWhile isSilent).reverse

def dropLastComponent? (body : List Bytes) : Option (List Bytes) :=
  match body.reverse.dropWhile isSilent with
  | [] => none
  | _ :: before => some (before.dropWhile isSilent).reverse

theorem dropLastComponent?_length_lt {body before : List Bytes}
    (h : dropLastComponent? body = some before) : before.length < body.length := by
  unfold dropLastComponent? at h
  split at h
  · simp at h
  · rename_i last front eq
    have outer := (List.dropWhile_sublist isSilent (l := body.reverse)).length_le
    have inner := (List.dropWhile_sublist isSilent (l := front)).length_le
    simp only [Option.some.injEq] at h
    subst before
    simp only [eq, List.length_cons, List.length_reverse] at outer
    simp only [List.length_reverse]
    omega

def Layout.parent? (l : Layout) : Option Layout :=
  match dropLastComponent? l.body with
  | some body => some ⟨l.lead, body⟩
  | none =>
    match l.lead with
    | some .here => some ⟨none, []⟩
    | _ => none

def parent? (p : Path) : Option Path := p.layout.parent?.map Layout.toPath

def fileName? (p : Path) : Option Bytes := p.components.getLast?.bind Component.name?

/-- The other path as seen from this one; an absolute path stands for itself. -/
def append (p q : Path) : Path :=
  if q.isAbsolute then q
  else
    match p.bytes.getLast? with
    | none => q
    | some b => if b = slash then ⟨p.bytes ++ q.bytes⟩ else ⟨p.bytes ++ slash :: q.bytes⟩

def child (p : Path) (name : Bytes) : Path := p.append ⟨name⟩

def quoted (p : Path) : String := quotedBytes p.bytes

end Path

end ModuleTree
