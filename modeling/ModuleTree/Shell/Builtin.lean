import ModuleTree.Shell.Arithmetic
import ModuleTree.Shell.State
import ModuleTree.Shell.Format
/- Commands of the shell itself. -/
namespace ModuleTree.Shell

def signalNumber? (name : String) : Option Nat :=
  match name.toNat? with
  | some n => some n
  | none =>
    let bare := if name.startsWith "SIG" then (name.drop 3).toString else name
    [("HUP", 1), ("INT", 2), ("QUIT", 3), ("ILL", 4), ("TRAP", 5), ("ABRT", 6), ("BUS", 7),
      ("FPE", 8), ("KILL", 9), ("USR1", 10), ("SEGV", 11), ("USR2", 12), ("PIPE", 13),
      ("ALRM", 14), ("TERM", 15), ("CHLD", 17), ("CONT", 18), ("STOP", 19), ("URG", 23),
      ("WINCH", 28)].lookup bare

def isHarmless (signal : Nat) : Bool :=
  signal = 0 || signal = 17 || signal = 18 || signal = 19 || signal = 23 || signal = 28

def killArguments : List String → Option (Nat × List String)
  | "-s" :: name :: rest => (signalNumber? name).map fun n => (n, rest)
  | first :: rest =>
    if first.startsWith "-" && first ≠ "--" then
      (signalNumber? (first.drop 1).toString).map fun n => (n, rest)
    else some (15, first :: rest)
  | [] => none

def kill (s : State) (args : List Bytes) : State :=
  match killArguments (args.map Text.lossy) with
  | some (signal, targets) =>
    if targets.contains (toString State.processNumber) then
      if isHarmless signal then s.setStatus 0 else s.finish (.signal signal)
    else (s.complain "kill: No such process\n").setStatus 1
  | none =>
    let usage := "Usage: kill [-s sigspec | -signum | -sigspec] [pid | job]... or\nkill -l [exitstatus]"
    (s.complain s!"kill: {usage}").setStatus 2

def fail (s : State) (message : String) : State := (s.complain message).finish (.exit 2)

def leave (s : State) (args : List Bytes) : State :=
  match args with
  | [] => s.finish (.exit s.status)
  | first :: _ =>
    match (Text.lossy first).toNat? with
    | some n => s.finish (.exit (n % 256))
    | none => fail s s!"exit: Illegal number: {Text.lossy first}"

def giveBack (s : State) (args : List Bytes) : State :=
  match args with
  | [] => { s with halt := some .function }
  | first :: _ =>
    match (Text.lossy first).toNat? with
    | some n => { s with status := n % 256, halt := some .function }
    | none => fail s s!"return: Illegal number: {Text.lossy first}"

/-- Leaves loops, at most all of them, or goes on with the next round of the last of them. -/
def leaveLoops (s : State) (command : String) (again : Bool) (args : List Bytes) : State :=
  let count := match args with
    | [] => some 1
    | first :: _ => (Text.lossy first).toNat?
  match count with
  | some (n + 1) =>
    if s.loops = 0 then s.setStatus 0
    else { s with status := 0, halt := some (.loops (min (n + 1) s.loops) again) }
  | _ => fail s s!"{command}: Illegal number: {Text.lossy (args.head?.getD [])}"

def shift (s : State) (args : List Bytes) : State :=
  let count := match args with
    | [] => some 1
    | first :: _ => (Text.lossy first).toNat?
  match count with
  | some n =>
    if n ≤ s.arguments.length then { s with arguments := s.arguments.drop n, status := 0 }
    else fail s "shift: can't shift that many"
  | none => fail s s!"shift: Illegal number: {Text.lossy (args.head?.getD [])}"

def wait (s : State) (args : List Bytes) : State :=
  match args with
  | [] => s.setStatus 0
  | first :: _ =>
    if s.value? "!" = some first then s.setStatus (s.job.getD 127) else s.setStatus 127

def compareNumbers (op : String) (a b : Int) : Option Bool :=
  match op with
  | "-eq" => some (a = b)
  | "-ne" => some (a ≠ b)
  | "-lt" => some (a < b)
  | "-le" => some (a ≤ b)
  | "-gt" => some (b < a)
  | "-ge" => some (b ≤ a)
  | _ => none

def isComparison (op : Bytes) : Bool :=
  let op := Text.lossy op
  op = "=" || op = "!=" || (compareNumbers op 0 0).isSome

def compare (x op y : Bytes) : Except String Bool :=
  match Text.lossy op with
  | "=" => .ok (x = y)
  | "!=" => .ok (x ≠ y)
  | op =>
    match Arithmetic.numberOf? (Text.lossy x).toList, Arithmetic.numberOf? (Text.lossy y).toList with
    | some a, some b => .ok ((compareNumbers op a b).getD false)
    | none, _ => .error s!"Illegal number: {Text.lossy x}"
    | _, none => .error s!"Illegal number: {Text.lossy y}"

def fileHolds? (files : Files) (op x : Bytes) : Option Bool :=
  let isDirectory : Bool := match files x with
    | .error .isADirectory => true
    | _ => false
  let content := (files x).toOption
  match Text.lossy op with
  | "-d" => some isDirectory
  | "-f" | "-r" | "-w" => some content.isSome
  | "-e" => some (isDirectory || content.isSome)
  | "-s" => some ((content.map fun c => !c.isEmpty).getD isDirectory)
  | _ => none

abbrev Tested := Except String (Bool × List Bytes)

mutual

def readEither (files : Files) : Nat → List Bytes → Tested
  | 0, _ => .error "argument expected"
  | fuel + 1, args =>
    match readBoth files fuel args with
    | .error e => .error e
    | .ok (first, op :: rest) =>
      if op = Text.encode "-o" then
        (readEither files fuel rest).map fun (second, rest) => (first || second, rest)
      else .ok (first, op :: rest)
    | .ok (first, []) => .ok (first, [])

def readBoth (files : Files) : Nat → List Bytes → Tested
  | 0, _ => .error "argument expected"
  | fuel + 1, args =>
    match readSingle files fuel args with
    | .error e => .error e
    | .ok (first, op :: rest) =>
      if op = Text.encode "-a" then
        (readBoth files fuel rest).map fun (second, rest) => (first && second, rest)
      else .ok (first, op :: rest)
    | .ok (first, []) => .ok (first, [])

def readSingle (files : Files) : Nat → List Bytes → Tested
  | 0, _ => .error "argument expected"
  | _ + 1, [] => .error "argument expected"
  | _ + 1, [x] => .ok (x ≠ [], [])
  | fuel + 1, x :: y :: rest =>
    match rest with
    | z :: rest =>
      if isComparison y then (compare x y z).map fun holds => (holds, rest)
      else readMarked files fuel x (y :: z :: rest)
    | [] =>
      if isComparison y then .error s!"{Text.lossy y}: argument expected"
      else readMarked files fuel x [y]

def readMarked (files : Files) : Nat → Bytes → List Bytes → Tested
  | 0, _, _ => .error "argument expected"
  | fuel + 1, x, rest =>
    match Text.lossy x, rest with
    | "!", rest => (readSingle files fuel rest).map fun (holds, rest) => (!holds, rest)
    | "(", rest =>
      match readEither files fuel rest with
      | .error e => .error e
      | .ok (holds, close :: rest) =>
        if close = Text.encode ")" then .ok (holds, rest) else .error "closing paren expected"
      | .ok (_, []) => .error "closing paren expected"
    | "-n", y :: rest => .ok (y ≠ [], rest)
    | "-z", y :: rest => .ok (y = [], rest)
    | _, y :: rest =>
      match fileHolds? files x y with
      | some holds => .ok (holds, rest)
      | none => .ok (x ≠ [], y :: rest)
    | _, [] => .ok (x ≠ [], [])

end

def holds (files : Files) (args : List Bytes) : Except String Bool :=
  match args with
  | [] => .ok false
  | args =>
    match readEither files (4 * args.length + 4) args with
    | .error e => .error e
    | .ok (holds, []) => .ok holds
    | .ok (_, rest) =>
      let last := (args[args.length - rest.length - 1]?).getD []
      .error s!"{Text.lossy last}: unexpected operator"

def test (files : Files) (s : State) (command : String) (args : List Bytes) : State :=
  match holds files args with
  | .ok true => s.setStatus 0
  | .ok false => s.setStatus 1
  | .error e => (s.complain s!"{command}: {e}").setStatus 2

/-- A line of input. A backslash takes the meaning from the next byte, and joins lines,
unless the line is raw. Ends with whether the line does. -/
def takeLine (raw : Bool) : Bytes → List Mark × Bytes × Bool
  | [] => ([], [], false)
  | b :: rest =>
    if b = 0x0A then ([], rest, true)
    else if b = 0x5C && !raw then
      match rest with
      | [] => ([], [], false)
      | c :: rest =>
        let (line, after, ended) := takeLine raw rest
        if c = 0x0A then (line, after, ended) else (⟨c, true⟩ :: line, after, ended)
    else
      let (line, after, ended) := takeLine raw rest
      (⟨b, false⟩ :: line, after, ended)

def shareLine (separators : Bytes) : List String → List Mark → List (String × Bytes)
  | [], _ => []
  | name :: names, line =>
    let separates (m : Mark) : Bool := !m.quoted && separators.contains m.byte
    let isWhite (m : Mark) : Bool := separates m && isSeparator m.byte
    match names with
    | [] => [(name, ((line.reverse.dropWhile isWhite).reverse).map Mark.byte)]
    | names =>
      let rest := (line.dropWhile (!separates ·)).dropWhile isWhite
      let rest := match rest with
        | m :: after => if separates m then after.dropWhile isWhite else rest
        | [] => []
      (name, (line.takeWhile (!separates ·)).map Mark.byte) :: shareLine separators names rest

def readLine (s : State) (args : List Bytes) : State :=
  let options := args.takeWhile fun a => a.head? = some 0x2D
  let raw := options.any fun a => a.contains 0x72
  let names := (args.drop options.length).map Text.lossy
  let separators := (s.bindings.lookup "IFS").getD [0x20, 0x09, 0x0A]
  if names.isEmpty then (s.complain "read: arg count").setStatus 2
  else
    match s.input with
    | none => s.setStatus 1
    | some input =>
      let (line, rest, ended) := takeLine raw input
      let start := line.dropWhile fun m =>
        !m.quoted && separators.contains m.byte && isSeparator m.byte
      (shareLine separators names start).foldl (fun s (name, value) => s.set name value)
        { s with input := some rest, status := if ended then 0 else 1 }

def shellOptions : List Char := "abCeEfhiIlmnpqsuvVx".toList

def switch (on : Bool) : List Char → State → Except Char State
  | [], s => .ok s
  | 'e' :: rest, s => switch on rest { s with strict := on }
  | 'u' :: rest, s => switch on rest { s with demanding := on }
  | c :: rest, s => if shellOptions.contains c then switch on rest s else .error c

def setAll (s : State) : List Bytes → State
  | [] => s.setStatus 0
  | first :: rest =>
    match (Text.lossy first).toList with
    | ['-', '-'] => { s with arguments := rest, status := 0 }
    | ['-', 'o'] | ['+', 'o'] => s.setStatus 0
    | '-' :: letters =>
      match switch true letters s with
      | .ok s => setAll s rest
      | .error c => fail s s!"set: Illegal option -{c}"
    | '+' :: letters =>
      match switch false letters s with
      | .ok s => setAll s rest
      | .error c => fail s s!"set: Illegal option +{c}"
    | _ => { s with arguments := first :: rest, status := 0 }

def exportAll (s : State) : List Bytes → State
  | [] => s.setStatus 0
  | arg :: rest =>
    let name := arg.takeWhile (· ≠ 0x3D)
    match arg.dropWhile (· ≠ 0x3D) with
    | _ :: value => exportAll (s.set (Text.lossy name) value) rest
    | [] => exportAll s rest

def print (s : State) (args : List Bytes) : State :=
  let args := if args.head? = some (Text.encode "--") then args.drop 1 else args
  match args with
  | [] => (s.complain "printf: usage: printf format [arg ...]").setStatus 2
  | format :: rest =>
    let who := s.name ++ Text.encode ": 1: printf: "
    let (output, errors, failed) := printf who format rest
    let s := if errors.isEmpty then s else s.put s.errorsTo errors
    (s.setStatus (if failed then 1 else 0)).say "printf" output

def builtin? (files : Files) (s : State) (name : String) (args : List Bytes) : Option State :=
  match name with
  | ":" | "true" => some (s.setStatus 0)
  | "false" => some (s.setStatus 1)
  | "echo" => some ((s.setStatus 0).say "echo" (echo args))
  | "printf" => some (print s args)
  | "exit" => some (leave s args)
  | "return" => some (giveBack s args)
  | "break" => some (leaveLoops s name false args)
  | "continue" => some (leaveLoops s name true args)
  | "wait" => some (wait s args)
  | "kill" => some (kill s args)
  | "shift" => some (shift s args)
  | "test" => some (test files s name args)
  | "[" =>
    if args.getLast? = some (Text.encode "]") then some (test files s name args.dropLast)
    else some ((s.complain "[: missing ]").setStatus 2)
  | "read" => some (readLine s args)
  | "export" | "readonly" => some (exportAll s args)
  | "unset" =>
    let names := args.map Text.lossy
    some { s with bindings := s.bindings.filter (!names.contains ·.1), status := 0 }
  | "set" => some (setAll s args)
  | "umask" | "trap" => some (s.setStatus 0)
  | _ => none

end ModuleTree.Shell
