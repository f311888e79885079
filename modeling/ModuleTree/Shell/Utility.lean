import ModuleTree.FileSystem.Fault
import ModuleTree.Text.Utf8
/- The small programs that scripts call: `cat`, `wc`, `tr`, `true` and `false`. -/
namespace ModuleTree.Shell

inductive Ending where
  | exit (status : Nat)
  | signal (number : Nat)
  deriving DecidableEq, Repr

structure Outcome where
  output : Bytes := []
  errors : Bytes := []
  ending : Ending := .exit 0
  unread : Bytes := []

def failing (errors : String) (status : Nat) (input : Bytes) : Outcome :=
  ⟨[], Text.encode errors, .exit status, input⟩

def unknownOption (program : String) (option : Bytes) (input : Bytes) : Outcome :=
  let shown := Text.lossy option
  let hint := s!"Try '{program} --help' for more information.\n"
  match option with
  | 0x2D :: 0x2D :: _ => failing s!"{program}: unrecognized option '{shown}'\n{hint}" 1 input
  | _ => failing s!"{program}: invalid option -- '{Text.lossy ((option.drop 1).take 1)}'\n{hint}" 1 input

def isOption (arg : Bytes) : Bool := arg.head? = some 0x2D && 1 < arg.length

def unknown? (letters : Bytes) (options : List Bytes) : Option Bytes :=
  options.find? fun option => (option.drop 1).any (!letters.contains ·)

abbrev Files := Bytes → Except IoError Bytes

def gather (program : String) (files : Files) : List Bytes → Bytes → Outcome
  | [], input => ⟨[], [], .exit 0, input⟩
  | name :: rest, input =>
    if name = [0x2D] then
      let more := gather program files rest []
      { more with output := input ++ more.output }
    else
      let more := gather program files rest input
      match files name with
      | .ok content => { more with output := content ++ more.output }
      | .error e =>
        { more with
          errors := Text.encode s!"{program}: {Text.lossy name}: {e.reason}\n" ++ more.errors
          ending := .exit 1 }

def cat (files : Files) (args : List Bytes) (input : Bytes) : Outcome :=
  match args.find? isOption with
  | some option =>
    if option = Text.encode "-u" then gather "cat" files (args.filter (!isOption ·)) input
    else unknownOption "cat" option input
  | none => gather "cat" files (if args.isEmpty then [[0x2D]] else args) input

def isSpaceByte (b : UInt8) : Bool := b = 0x20 || (0x09 ≤ b && b ≤ 0x0D)

def countWords (inside : Bool) (count : Nat) : Bytes → Nat
  | [] => count
  | b :: rest =>
    if isSpaceByte b then countWords false count rest
    else countWords true (if inside then count else count + 1) rest

def wc (args : List Bytes) (input : Bytes) : Outcome :=
  let letters := args.filter isOption
  match unknown? [0x63, 0x6C, 0x77, 0x6D] letters with
  | some option => unknownOption "wc" option input
  | none =>
    let wanted (b : UInt8) : Bool :=
      letters.isEmpty && b ≠ 0x6D || letters.any fun a => (a.drop 1).contains b
    let counts :=
      (if wanted 0x6C then [input.count 0x0A] else [])
        ++ (if wanted 0x77 then [countWords false 0 input] else [])
        ++ (if wanted 0x6D then [(Text.lossy input).length] else [])
        ++ (if wanted 0x63 then [input.length] else [])
    let column (n : Nat) : String :=
      let digits := toString n
      if counts.length = 1 then digits
      else String.ofList (List.replicate (7 - digits.length) ' ') ++ digits
    ⟨Text.encode (" ".intercalate (counts.map column) ++ "\n"), [], .exit 0, []⟩

def bytesFrom (first last : Nat) : Bytes :=
  (List.range (last + 1 - first)).map fun i => UInt8.ofNat (first + i)

def classBytes? (name : String) : Option Bytes :=
  let lower := bytesFrom 0x61 0x7A
  let upper := bytesFrom 0x41 0x5A
  let digits := bytesFrom 0x30 0x39
  match name with
  | "lower" => some lower
  | "upper" => some upper
  | "digit" => some digits
  | "alpha" => some (upper ++ lower)
  | "alnum" => some (digits ++ upper ++ lower)
  | "blank" => some [0x09, 0x20]
  | "space" => some (bytesFrom 0x09 0x0D ++ [0x20])
  | "cntrl" => some (bytesFrom 0 0x1F ++ [0x7F])
  | "print" => some (bytesFrom 0x20 0x7E)
  | "graph" => some (bytesFrom 0x21 0x7E)
  | "punct" =>
    some (bytesFrom 0x21 0x2F ++ bytesFrom 0x3A 0x40 ++ bytesFrom 0x5B 0x60 ++ bytesFrom 0x7B 0x7E)
  | "xdigit" => some (digits ++ bytesFrom 0x41 0x46 ++ bytesFrom 0x61 0x66)
  | _ => none

def classAt? (bytes : Bytes) : Option (Bytes × Bytes) :=
  match bytes with
  | 0x5B :: 0x3A :: rest =>
    match rest.dropWhile (· ≠ 0x3A) with
    | 0x3A :: 0x5D :: after =>
      (classBytes? (Text.lossy (rest.takeWhile (· ≠ 0x3A)))).map fun set => (set, after)
    | _ => none
  | _ => none

def setBytes : Nat → Bytes → Bytes
  | 0, _ => []
  | _, [] => []
  | fuel + 1, b :: rest =>
    match classAt? (b :: rest) with
    | some (set, rest) => set ++ setBytes fuel rest
    | none =>
    let (first, rest) : UInt8 × Bytes :=
      if b = 0x5C then
        match rest with
        | 0x6E :: rest => (0x0A, rest)
        | 0x74 :: rest => (0x09, rest)
        | 0x72 :: rest => (0x0D, rest)
        | 0x61 :: rest => (0x07, rest)
        | 0x62 :: rest => (0x08, rest)
        | 0x66 :: rest => (0x0C, rest)
        | 0x76 :: rest => (0x0B, rest)
        | d :: rest =>
          if 0x30 ≤ d && d ≤ 0x37 then
            let digits := ((d :: rest).takeWhile fun x => 0x30 ≤ x && x ≤ 0x37).take 3
            (UInt8.ofNat (digits.foldl (fun n x => n * 8 + (x.toNat - 48)) 0),
              (d :: rest).drop digits.length)
          else (d, rest)
        | [] => (0x5C, [])
      else (b, rest)
    match rest with
    | 0x2D :: high :: rest =>
      bytesFrom first.toNat high.toNat ++ setBytes fuel rest
    | rest => first :: setBytes fuel rest

def translate (pairs : List (UInt8 × UInt8)) (b : UInt8) : UInt8 := (pairs.lookup b).getD b

def squeeze (set : Bytes) (done : Bytes) : Bytes → Bytes
  | [] => done.reverse
  | b :: rest =>
    if set.contains b && done.head? = some b then squeeze set done rest
    else squeeze set (b :: done) rest

def tr (args : List Bytes) (input : Bytes) : Outcome :=
  let options := args.takeWhile isOption
  match unknown? [0x64, 0x73, 0x63, 0x43] options with
  | some option => unknownOption "tr" option input
  | none =>
    let has (b : UInt8) : Bool := options.any fun a => (a.drop 1).contains b
    let sets := (args.dropWhile isOption).map fun a => setBytes (a.length + 1) a
    let whole (set : Bytes) : Bytes :=
      if has 0x63 || has 0x43 then ((List.range 256).map UInt8.ofNat).filter (!set.contains ·) else set
    match has 0x64, has 0x73, sets with
    | true, false, [set] =>
      let set := whole set
      ⟨input.filter (!set.contains ·), [], .exit 0, []⟩
    | true, true, [set, repeats] =>
      let set := whole set
      ⟨squeeze repeats [] (input.filter (!set.contains ·)), [], .exit 0, []⟩
    | false, true, [set] => ⟨squeeze (whole set) [] input, [], .exit 0, []⟩
    | false, squeezes, [first, second] =>
      let first := whole first
      let padded := second ++ List.replicate (first.length - second.length) (second.getLast?.getD 0)
      let pairs := (first.zip padded).reverse
      let output := input.map (translate pairs)
      ⟨if squeezes then squeeze second [] output else output, [], .exit 0, []⟩
    | deletes, squeezes, sets =>
      let last := Text.lossy (args.getLast?.getD [])
      let what :=
        match sets with
        | [] => "missing operand"
        | [_] =>
          s!"missing operand after '{last}'\n" ++
            if deletes && squeezes then "Two strings must be given when both deleting and squeezing repeats."
            else "Two strings must be given when translating."
        | _ =>
          let extra := Text.lossy ((args.dropWhile isOption)[if deletes && !squeezes then 1 else 2]?.getD [])
          s!"extra operand '{extra}'" ++
            if deletes && !squeezes then
              "\nOnly one string may be given when deleting without squeezing repeats."
            else ""
      failing s!"tr: {what}\nTry 'tr --help' for more information.\n" 1 input

end ModuleTree.Shell
