import ModuleTree.Shell.Builtin
import ModuleTree.Shell.Parser
/- Running shell scripts. A script ends by its own structure, but for loops that wait and
functions that call themselves; both go on for a great many rounds. -/
namespace ModuleTree.Shell

abbrev Programs := String → Option (List Bytes → Bytes → Outcome)

structure Environment where
  programs : Programs
  files : Files
  call : Script → State → State

def Ending.status : Ending → Nat
  | exit status => status
  | signal number => 128 + number

/-- The state after an inner shell: what it set is forgotten, what it read stays read, and
a signal ends the outer shell too. -/
def rejoin (outer inner : State) : State :=
  { outer with
    input := inner.input
    outputs := inner.outputs
    errors := inner.errors
    status := match inner.halt with
      | some (.shell ending) => ending.status
      | _ => inner.status
    halt := match inner.halt with
      | some (.shell (.signal n)) => some (.shell (.signal n))
      | _ => outer.halt }

def programName (name : String) : String :=
  if name.startsWith "/usr/bin/" then (name.drop 9).toString
  else if name.startsWith "/bin/" then (name.drop 5).toString
  else name

def deliver (s : State) (program : String) (outcome : Outcome) : State :=
  let lost := s.outputTo = .closed && !outcome.output.isEmpty
  let s := s.put s.outputTo outcome.output
  let s := if outcome.errors.isEmpty then s else s.put s.errorsTo outcome.errors
  if lost then
    let what := if program = "cat" then "standard output" else "write error"
    (s.put s.errorsTo (Text.encode s!"{program}: {what}: Bad file descriptor\n")).setStatus 1
  else s.setStatus outcome.ending.status

def start (env : Environment) (s : State) (name : Bytes) (args : List Bytes) : State :=
  let shown := Text.lossy name
  match env.programs (programName shown) with
  | none => (s.complain s!"{shown}: not found").setStatus 127
  | some program =>
    let outcome := program args (s.input.getD [])
    deliver { s with input := s.input.map fun _ => outcome.unread } (programName shown) outcome

def callFunction (env : Environment) (s : State) (body : Script) (args : List Bytes) : State :=
  let after := env.call body { s with arguments := args, loops := 0 }
  { after with
    arguments := s.arguments
    loops := s.loops
    halt := if after.halt = some .function then none else after.halt }

def evaluate (env : Environment) (s : State) (text : Bytes) : State :=
  match parse (Text.lossy text).toList with
  | .error e => fail s s!"eval: {e}"
  | .ok .nil => s.setStatus 0
  | .ok script => env.call script s

def become (env : Environment) (s : State) : List Bytes → State
  | [] => s.setStatus 0
  | name :: args =>
    if (env.programs (programName (Text.lossy name))).isNone then
      (s.complain s!"exec: {Text.lossy name}: not found").finish (.exit 127)
    else
      let s := start env s name args
      s.finish (.exit s.status)

def execute (env : Environment) (s : State) : List Bytes → State
  | [] => s
  | name :: args =>
    let shown := Text.lossy name
    if shown = "exec" then become env s args
    else if shown = "eval" then evaluate env s (blankJoined args)
    else
      match s.functions.lookup shown with
      | some body => callFunction env s body args
      | none =>
        match builtin? env.files s shown args with
        | some s => s
        | none => start env s name args

/-- Bindings after a command, where those made for it alone have their old values. -/
def restored (before after : List (String × Bytes)) : Assignments → List (String × Bytes)
  | .nil => after
  | .cons name _ rest =>
    let after := restored before after rest
    match before.lookup name with
    | some value => (name, value) :: after.filter (·.1 ≠ name)
    | none => after.filter (·.1 ≠ name)

def numberOfValue (s : State) (name : String) : Except Arithmetic.Fault Int :=
  let text := Text.lossy ((s.value? name).getD [])
  match Arithmetic.numberOf? text.toList with
  | some n => .ok n
  | none => .error (.notNumber text)

def sumOf (s : State) (text : Bytes) : Bytes × State :=
  match Arithmetic.value (numberOfValue s) (Text.lossy text) with
  | .error fault => ([], fail s (fault.message (Text.lossy text)))
  | .ok (n, assigned) =>
    (Text.encode (toString n),
      assigned.foldr (fun (name, n) s => s.set name (Text.encode (toString n))) s)

def rounds (wanted : Bool) (test body : State → State) : Nat → State → State
  | 0, s => s
  | n + 1, s =>
    let last := s.status
    let (goesOn, s) := (s.testing test).afterBody
    if !goesOn then s
    else if s.halt.isNone && decide (s.status = 0) ≠ wanted then s.setStatus last
    else
      let (goesOn, s) := (body s).afterBody
      if goesOn then rounds wanted test body n s else s

def looped (s : State) (loop : State → State) : State :=
  { loop { s with loops := s.loops + 1, status := 0 } with loops := s.loops }

/-- More rounds than any script that ends has time for. -/
def roundLimit : Nat := 0x10000000000000000

def isUnset (orEmpty : Bool) (value : Option Bytes) : Bool :=
  match value with
  | none => true
  | some bytes => orEmpty && bytes.isEmpty

def fragmentsOf (s : State) (name : String) (quoted : Bool) : List Fragment :=
  match name, quoted with
  | "@", _ => [.list s.arguments quoted]
  | "*", true => [.whole (blankJoined s.arguments) true]
  | "*", false => [.list s.arguments false]
  | name, true => [.whole ((s.value? name).getD []) true]
  | name, false => [.loose ((s.value? name).getD [])]

def valueOf (s : State) (name : String) : Option Bytes :=
  if name = "@" || name = "*" then some (blankJoined s.arguments) else s.value? name

def fragment (bytes : Bytes) (quoted : Bool) : Fragment :=
  if quoted then .whole bytes true else .loose bytes

mutual

def expand (env : Environment) : Word → State → List Fragment × State
  | .nil, s => ([], s)
  | .literal bytes quoted rest, s =>
    let (more, s) := expand env rest s
    (.whole bytes quoted :: more, s)
  | .value name quoted rest, s =>
    let found := fragmentsOf s name quoted
    let s := if s.demanding && (valueOf s name).isNone then fail s s!"{name}: parameter not set"
      else s
    let (more, s) := expand env rest s
    (found ++ more, s)
  | .size name quoted rest, s =>
    let length := if name = "@" || name = "*" then s.arguments.length
      else ((s.value? name).getD []).length
    let (more, s) := expand env rest s
    (fragment (State.digits length) quoted :: more, s)
  | .edited name edit operand quoted rest, s =>
    let value := valueOf s name
    let bytes := value.getD []
    let (found, s) : List Fragment × State :=
      match edit with
      | .cutEnd longest =>
        let (marks, s) := expand env operand s
        ([fragment (cutEnd (patternOf marks) longest bytes) quoted], s)
      | .cutStart longest =>
        let (marks, s) := expand env operand s
        ([fragment (cutStart (patternOf marks) longest bytes) quoted], s)
      | .fallback orEmpty =>
        if isUnset orEmpty value then expand env operand s
        else (fragmentsOf s name quoted, s)
      | .assign orEmpty =>
        if isUnset orEmpty value then
          let (fragments, s) := expand env operand s
          ([fragment (joined fragments) quoted], s.set name (joined fragments))
        else (fragmentsOf s name quoted, s)
      | .replace orEmpty =>
        if isUnset orEmpty value then ([], s) else expand env operand s
      | .demand orEmpty =>
        if isUnset orEmpty value then
          let (fragments, s) := expand env operand s
          let what := Text.lossy (joined fragments)
          let what := if !what.isEmpty then what
            else if orEmpty then "parameter not set or null" else "parameter not set"
          ([], fail s s!"{name}: {what}")
        else (fragmentsOf s name quoted, s)
    let (more, s) := expand env rest s
    (found ++ more, s)
  | .output script quoted rest, s =>
    let depth := s.outputs.size
    let inner := run env script
      { s with outputs := s.outputs.push [], outputTo := .collected depth }
    let taken := trimmed ((inner.outputs[depth]?.getD []).reverse.flatten)
    let after := rejoin s { inner with outputs := inner.outputs.pop }
    let after := { after with taken := some after.status, status := s.status }
    let (more, s) := expand env rest after
    (fragment taken quoted :: more, s)
  | .sum text quoted rest, s =>
    let (fragments, s) := expand env text s
    let (digits, s) := sumOf s (joined fragments)
    let (more, s) := expand env rest s
    (fragment digits quoted :: more, s)

def expandAll (env : Environment) : Words → State → List Bytes × State
  | .nil, s => ([], s)
  | .cons word rest, s =>
    let (fragments, s) := expand env word s
    let (more, s) := expandAll env rest s
    (Fields.ofFragments fragments ++ more, s)

def assignAll (env : Environment) : Assignments → State → State
  | .nil, s => s
  | .cons name word rest, s =>
    let (fragments, s) := expand env word s
    assignAll env rest (s.set name (joined fragments))

def matchAny (env : Environment) (bytes : Bytes) : Words → State → Bool × State
  | .nil, s => (false, s)
  | .cons word rest, s =>
    let (fragments, s) := expand env word s
    if matchesPattern (patternOf fragments) bytes then (true, s)
    else matchAny env bytes rest s

def runCases (env : Environment) (bytes : Bytes) : Cases → State → State
  | .nil, s => s.setStatus 0
  | .cons patterns body rest, s =>
    let (found, s) := matchAny env bytes patterns s
    if found then run env body (s.setStatus 0)
    else runCases env bytes rest s

def run (env : Environment) : Script → State → State
  | .nil, s => s
  | .simple assignments words, s =>
    let (fields, s) := expandAll env words { s with taken := none }
    if s.halt.isSome then s
    else
      let before := s.bindings
      let s := assignAll env assignments s
      if s.halt.isSome then s
      else
        match fields with
        | [] => (s.setStatus (s.taken.getD 0)).checked
        | fields =>
          let s := execute env s fields
          { s with bindings := restored before s.bindings assignments }.checked
  | .sequence first second, s =>
    let s := run env first s
    if s.halt.isSome then s else run env second s
  | .both first second, s =>
    let s := s.testing (run env first)
    if s.halt.isSome || s.status ≠ 0 then s else run env second s
  | .either first second, s =>
    let s := s.testing (run env first)
    if s.halt.isSome || s.status = 0 then s else run env second s
  | .negated body, s =>
    let s := s.testing (run env body)
    if s.halt.isSome then s else s.setStatus (if s.status = 0 then 1 else 0)
  | .piped first second, s =>
    let depth := s.outputs.size
    let inner := run env first
      { s with outputs := s.outputs.push [], outputTo := .collected depth }
    let passed := (inner.outputs[depth]?.getD []).reverse.flatten
    let s := rejoin s { inner with outputs := inner.outputs.pop }
    if s.halt.isSome then s
    else
      let last := run env second { s with input := some passed }
      (rejoin s { last with input := s.input }).checked
  | .each name words body, s =>
    let (fields, s) := expandAll env words s
    if s.halt.isSome then s
    else
      looped s fun s =>
        (fields.foldl (fun (goesOn, s) field =>
          if goesOn then (run env body (s.set name field)).afterBody else (goesOn, s)) (true, s)).2
  | .loop wanted test body, s =>
    looped s (rounds wanted (run env test) (run env body) roundLimit)
  | .define name body, s =>
    { s with functions := (name, body) :: s.functions, status := 0 }
  | .choose word cases, s =>
    let (fragments, s) := expand env word s
    if s.halt.isSome then s else runCases env (joined fragments) cases s
  | .branch test body otherwise, s =>
    let s := s.testing (run env test)
    if s.halt.isSome then s
    else if s.status = 0 then run env body s
    else run env otherwise (s.setStatus 0)
  | .subshell body, s => (rejoin s (run env body s)).checked
  | .background body, s =>
    let after := rejoin s (run env body { s with input := some [] })
    { after with input := s.input, halt := s.halt, job := some after.status, status := 0 }
  | .redirected body redirects, s =>
    match redirectAll env.files s redirects with
    | .error e => (s.complain e).setStatus 2
    | .ok inner =>
      let after := run env body inner
      let isExec : Bool :=
        match body with
        | .simple .nil (.cons word .nil) => decide (word.unquoted? = some (Text.encode "exec"))
        | _ => false
      if isExec then after
      else
        { after with
          outputTo := s.outputTo
          errorsTo := s.errorsTo
          input := if redirects.any (·.descriptor = 0) then s.input else after.input }

end

def callTo (programs : Programs) (files : Files) : Nat → Script → State → State
  | 0, _, s => s.finish (.signal 11)
  | depth + 1, body, s => run ⟨programs, files, callTo programs files depth⟩ body s

def callDepth : Nat := 1000

def runText (programs : Programs) (files : Files) (script : Bytes) (s : State) : Outcome :=
  let input := s.input.getD []
  match parse (Text.lossy script).toList with
  | .error e => ⟨[], s.name ++ Text.encode s!": 1: {e}\n", .exit 2, input⟩
  | .ok script =>
    let s := callTo programs files callDepth script s
    let ending := match s.halt with
      | some (.shell ending) => ending
      | _ => .exit s.status
    ⟨(s.outputs[0]?.getD []).reverse.flatten, s.errors.reverse.flatten, ending,
      s.input.getD []⟩

/-- The shell as a program: a script after `-c`, in a file, or as input. Options are kept in
a state that has not started. -/
def shell (programs : Programs) (files : Files) : Bool → State → List Bytes → Outcome
  | wantsScript, s, arg :: rest =>
    let text := Text.lossy arg
    let input := s.input.getD []
    if arg.head? = some 0x2D && text ≠ "-" && text ≠ "--" then
      let letters := text.toList.drop 1
      match switch true (letters.filter (· ≠ 'c')) s with
      | .error c => failing s!"sh: 0: Illegal option -{c}\n" 2 input
      | .ok s => shell programs files (wantsScript || letters.contains 'c') s rest
    else
      let words := if text = "-" || text = "--" then rest else arg :: rest
      match wantsScript, words with
      | true, script :: name :: arguments => runText programs files script { s with name, arguments }
      | true, [script] => runText programs files script s
      | true, [] => failing "sh: 0: -c requires an argument\n" 2 input
      | false, name :: arguments =>
        match files name with
        | .ok script => runText programs files script { s with name, arguments }
        | .error _ => failing s!"sh: 0: cannot open {Text.lossy name}: No such file\n" 2 input
      | false, [] => runText programs files input { s with input := some [] }
  | true, s, [] => failing "sh: 0: -c requires an argument\n" 2 (s.input.getD [])
  | false, s, [] => runText programs files (s.input.getD []) { s with input := some [] }

def utilities (files : Files) : Programs
  | "cat" => some (cat files)
  | "wc" => some wc
  | "tr" => some tr
  | "true" => some fun _ input => { unread := input }
  | "false" => some fun _ input => { ending := .exit 1, unread := input }
  | "printf" => some fun args input =>
    match args with
    | [] => failing "printf: missing operand\nTry 'printf --help' for more information.\n" 1 input
    | format :: rest =>
      let (output, errors, failed) := printf (Text.encode "printf: ") format rest
      ⟨output, errors, .exit (if failed then 1 else 0), input⟩
  | "echo" => some fun args input => { output := blankJoined args ++ [0x0A], unread := input }
  | _ => none

def programsTo (files : Files) : Nat → Programs
  | 0 => utilities files
  | depth + 1 => fun name =>
    if name = "sh" then
      some fun args input =>
        let fresh : State := { name := Text.encode "sh", arguments := [], input := some input }
        shell (programsTo files depth) files false fresh args
    else utilities files name

end ModuleTree.Shell
