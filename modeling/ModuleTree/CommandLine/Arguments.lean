import ModuleTree.CommandLine.Values
/- Reading the arguments of a command line, one after another. A parameter takes effect
   when the next one starts, so an argument that belongs nowhere is noticed first. -/
namespace ModuleTree

inductive Spelling where
  | divider
  | name (name : String) (value : Option String)
  | letters (letters : List Char)
  | plain
  deriving DecidableEq, Repr

def Spelling.ofText (argument : String) : Spelling :=
  match argument.toList with
  | ['-', '-'] => divider
  | '-' :: '-' :: rest =>
    let value :=
      match rest.dropWhile (· ≠ '=') with
      | _ :: value => some (String.ofList value)
      | [] => none
    name (String.ofList (rest.takeWhile (· ≠ '='))) value
  | '-' :: letter :: rest => letters (letter :: rest)
  | _ => plain

inductive Pending where
  | nothing
  | awaiting (parameter : Parameter)
  | holding (parameter : Parameter) (texts : List String)
  deriving DecidableEq, Repr

structure Reading where
  values : Values := {}
  pending : Pending := .nothing
  divided : Bool := false

namespace Reading

def settle (r : Reading) : Except Ending Reading :=
  match r.pending with
  | .nothing => .ok r
  | .awaiting p => .error (.error (.missingValue p))
  | .holding p texts => do
    let values ← texts.foldlM (fun v text => v.give p text) r.values
    return { r with values, pending := .nothing }

def await (r : Reading) (p : Parameter) : Except Ending Reading := do
  let r ← r.settle
  return { r with pending := .awaiting p }

def attach (r : Reading) (p : Parameter) (value : String) : Except Ending Reading := do
  let r ← r.settle
  let values ← r.values.give p value
  return { r with values }

def raise (r : Reading) (p : Parameter) : Except Ending Reading := do
  let r ← r.settle
  let values ← r.values.raise p
  return { r with values }

/-- Inputs that stand next to each other take effect together. -/
def input (r : Reading) (text : String) : Except Ending Reading :=
  match r.pending with
  | .holding .inputs texts => .ok { r with pending := .holding .inputs (texts ++ [text]) }
  | _ => do
    let r ← r.settle
    return { r with pending := .holding .inputs [text] }

def word (r : Reading) (text : String) : Except Ending Reading :=
  match r.pending with
  | .awaiting p => .ok { r with pending := .holding p [text] }
  | _ => r.input text

/-- Letters behind one dash. The first that takes a value takes the rest of them for it,
less an equals sign in front. -/
def letters (r : Reading) : List Char → Except Ending Reading
  | [] => .ok r
  | c :: rest =>
    match Parameter.ofLetter? c with
    | none => .error (.error (.unexpected (String.ofList ['-', c])))
    | some p =>
      if p.takesValue then
        match rest with
        | [] => r.await p
        | '=' :: value => r.attach p (String.ofList value)
        | value => r.attach p (String.ofList value)
      else
        match r.raise p with
        | .error e => .error e
        | .ok r => r.letters rest

def named (r : Reading) (name : String) (value : Option String) : Except Ending Reading :=
  match Parameter.ofName? name, value with
  | none, _ => .error (.error (.unexpected ("--" ++ name)))
  | some p, none => if p.takesValue then r.await p else r.raise p
  | some p, some value =>
    if p.takesValue then r.attach p value else .error (.error (.unexpectedValue p value))

def awaitsAnything (r : Reading) : Bool :=
  match r.pending with
  | .awaiting p => p.takesAnything
  | _ => false

def argument (r : Reading) (text : String) : Except Ending Reading :=
  if r.divided then r.input text
  else if r.awaitsAnything then r.word text
  else
    match Spelling.ofText text with
    | .divider => .ok { r with divided := true }
    | .name name value => r.named name value
    | .letters letters => r.letters letters
    | .plain => r.word text

end Reading

structure Invocation where
  plan : Plan
  command : Command

namespace Invocation

def ofValues (v : Values) : Except Ending Invocation :=
  match v.compiler with
  | none => .error (.error (.missing .compiler))
  | some program =>
    match v.usage.plan with
    | .error e => .error (.error (.usage e))
    | .ok plan => .ok ⟨plan, ⟨program, v.compilerArguments⟩⟩

def ofArguments (arguments : List String) : Except Ending Invocation := do
  let r ← arguments.foldlM Reading.argument {}
  let r ← r.settle
  ofValues r.values

end Invocation

end ModuleTree
