import ModuleTree.Text.Utf8
/- Formatted output of the shell: what `echo` and `printf` print. -/
namespace ModuleTree.Shell

def octal? (b : UInt8) : Option Nat :=
  if 0x30 ≤ b && b ≤ 0x37 then some (b.toNat - 48) else none

def octals : Nat → Nat → Bytes → Nat × Bytes
  | 0, value, bytes => (value, bytes)
  | _, value, [] => (value, [])
  | n + 1, value, b :: bytes =>
    match octal? b with
    | some d => octals n (value * 8 + d) bytes
    | none => (value, b :: bytes)

def letterEscape? (b : UInt8) : Option UInt8 :=
  if b = 0x5C then some 0x5C
  else if b = 0x61 then some 0x07
  else if b = 0x62 then some 0x08
  else if b = 0x65 then some 0x1B
  else if b = 0x66 then some 0x0C
  else if b = 0x6E then some 0x0A
  else if b = 0x72 then some 0x0D
  else if b = 0x74 then some 0x09
  else if b = 0x76 then some 0x0B
  else none

def escape : Bytes → UInt8 × Bytes
  | [] => (0x5C, [])
  | b :: bytes =>
    match letterEscape? b with
    | some byte => (byte, bytes)
    | none =>
      match octal? b with
      | some _ =>
        let (value, rest) := octals 3 0 (b :: bytes)
        (UInt8.ofNat value, rest)
      | none => (0x5C, b :: bytes)

/-- Bytes with their escapes resolved, and whether `\c` ended them. An octal number may
have a zero in front. -/
def unescape : Nat → Bytes → Bytes → Bytes × Bool
  | 0, done, _ => (done.reverse, false)
  | _, done, [] => (done.reverse, false)
  | fuel + 1, done, b :: bytes =>
    if b = 0x5C then
      match bytes with
      | 0x63 :: _ => (done.reverse, true)
      | 0x30 :: d :: rest =>
        if (octal? d).isSome then
          let (byte, rest) := escape (d :: rest)
          unescape fuel (byte :: done) rest
        else
          let (byte, rest) := escape bytes
          unescape fuel (byte :: done) rest
      | _ =>
        let (byte, rest) := escape bytes
        unescape fuel (byte :: done) rest
    else unescape fuel (b :: done) bytes

def joinBlank : List Bytes → Bytes
  | [] => []
  | [x] => x
  | x :: rest => x ++ 0x20 :: joinBlank rest

def echo (args : List Bytes) : Bytes :=
  let (newline, args) := match args with
    | [0x2D, 0x6E] :: rest => (false, rest)
    | args => (true, args)
  let joined := joinBlank args
  let (bytes, stopped) := unescape (joined.length + 1) [] joined
  if newline && !stopped then bytes ++ [0x0A] else bytes

structure Conversion where
  left : Bool := false
  zero : Bool := false
  plus : Bool := false
  blank : Bool := false
  alternate : Bool := false
  width : Option Nat := none
  precision : Option Nat := none

structure Printing where
  output : List Bytes := []
  unused : List Bytes
  errors : List Bytes := []
  stopped : Bool := false
  failed : Bool := false

def Printing.put (p : Printing) (bytes : Bytes) : Printing := { p with output := bytes :: p.output }

def Printing.argument (p : Printing) : Bytes × Printing :=
  match p.unused with
  | [] => ([], p)
  | first :: rest => (first, { p with unused := rest })

def pad (c : Conversion) (fill : UInt8) (bytes : Bytes) : Bytes :=
  let missing := c.width.getD 0 - bytes.length
  if c.left then bytes ++ List.replicate missing 0x20 else List.replicate missing fill ++ bytes

def digitsOf (base : Nat) (upper : Bool) (n : Nat) : Bytes :=
  let digits := (Nat.toDigits base n).map fun d => if upper then d.toUpper else d
  digits.flatMap String.utf8EncodeChar

def putNumber (c : Conversion) (negative : Bool) (lead digits : Bytes) : Bytes :=
  let sign : Bytes := if negative then [0x2D] else if c.plus then [0x2B] else if c.blank then [0x20] else []
  let digits := List.replicate (c.precision.getD 1 - digits.length) 0x30 ++ digits
  if c.zero && !c.left && c.precision.isNone then
    let missing := c.width.getD 0 - (sign.length + lead.length + digits.length)
    sign ++ lead ++ List.replicate missing 0x30 ++ digits
  else pad c 0x20 (sign ++ lead ++ digits)

def decimalDigit? (b : UInt8) : Option Nat :=
  if 0x30 ≤ b && b ≤ 0x39 then some (b.toNat - 48) else none

def anyDigit? (base : Nat) (b : UInt8) : Option Nat :=
  let value :=
    if 0x30 ≤ b && b ≤ 0x39 then some (b.toNat - 48)
    else if 0x61 ≤ b && b ≤ 0x66 then some (b.toNat - 87)
    else if 0x41 ≤ b && b ≤ 0x46 then some (b.toNat - 55)
    else none
  value.filter (· < base)

def readDigits (base : Nat) (value : Nat) : Bytes → Nat × Bytes
  | [] => (value, [])
  | b :: bytes =>
    match anyDigit? base b with
    | some d => readDigits base (value * base + d) bytes
    | none => (value, b :: bytes)

def readNumber (bytes : Bytes) : Int × Bool :=
  match bytes with
  | [] => (0, true)
  | 0x22 :: b :: _ => (b.toNat, true)
  | 0x27 :: b :: _ => (b.toNat, true)
  | bytes =>
    let (negative, digits) := match bytes.dropWhile (· = 0x20) with
      | 0x2D :: rest => (true, rest)
      | 0x2B :: rest => (false, rest)
      | rest => (false, rest)
    let (value, rest) := match digits with
      | 0x30 :: 0x78 :: rest => readDigits 16 0 rest
      | 0x30 :: 0x58 :: rest => readDigits 16 0 rest
      | 0x30 :: rest => readDigits 8 0 rest
      | digits => readDigits 10 0 digits
    (if negative then -(value : Int) else value, rest.isEmpty && !digits.isEmpty)

def readFlags : Conversion → Bytes → Conversion × Bytes
  | c, 0x23 :: rest => readFlags { c with alternate := true } rest
  | c, 0x2D :: rest => readFlags { c with left := true } rest
  | c, 0x2B :: rest => readFlags { c with plus := true } rest
  | c, 0x20 :: rest => readFlags { c with blank := true } rest
  | c, 0x30 :: rest => readFlags { c with zero := true } rest
  | c, rest => (c, rest)

def complaint (who argument : Bytes) (what : String) : Bytes :=
  who ++ argument ++ Text.encode what

def Printing.number (who : Bytes) (p : Printing) : Int × Printing :=
  let (argument, p) := p.argument
  let (value, whole) := readNumber argument
  if whole then (value, p)
  else
    let what := if (argument.head?.bind decimalDigit?).isSome
      then ": not completely converted\n" else ": expected numeric value\n"
    (value, { p with errors := complaint who argument what :: p.errors, failed := true })

def Printing.breakOff (who : Bytes) (p : Printing) : Printing :=
  { p with
    errors := complaint who [] "missing format character\n" :: p.errors
    failed := true
    stopped := true }

def convert (who : Bytes) (c : Conversion) (letter : UInt8) (p : Printing) : Printing :=
  let cut (bytes : Bytes) : Bytes := match c.precision with
    | some n => bytes.take n
    | none => bytes
  if letter = 0x73 then
    let (argument, p) := p.argument
    p.put (pad c 0x20 (cut argument))
  else if letter = 0x62 then
    let (argument, p) := p.argument
    let (bytes, stopped) := unescape (argument.length + 1) [] argument
    { p.put (pad c 0x20 (cut bytes)) with stopped }
  else if letter = 0x63 then
    let (argument, p) := p.argument
    p.put (pad c 0x20 [argument.head?.getD 0])
  else if letter = 0x64 || letter = 0x69 then
    let (value, p) := p.number who
    p.put (putNumber c (value < 0) [] (digitsOf 10 false value.natAbs))
  else if letter = 0x75 || letter = 0x6F || letter = 0x78 || letter = 0x58 then
    let (value, p) := p.number who
    let word := if value < 0 then 0x10000000000000000 - value.natAbs else value.natAbs
    let base := if letter = 0x75 then 10 else if letter = 0x6F then 8 else 16
    let lead : Bytes :=
      if !c.alternate || word = 0 then []
      else if letter = 0x6F then [0x30]
      else if base = 16 then [0x30, letter]
      else []
    let bare := { c with plus := false, blank := false }
    p.put (putNumber bare false lead (digitsOf base (letter = 0x58) word))
  else
    { p with
      errors := complaint who (0x25 :: [letter]) ": invalid directive\n" :: p.errors
      failed := true
      stopped := true }

def readWidth (who : Bytes) (bytes : Bytes) (p : Printing) : Option Nat × Bytes × Printing :=
  match bytes with
  | 0x2A :: rest =>
    let (value, p) := p.number who
    (some value.natAbs, rest, p)
  | bytes =>
    match bytes.head?.bind decimalDigit? with
    | some _ =>
      let (value, rest) := readDigits 10 0 bytes
      (some value, rest, p)
    | none => (none, bytes, p)

def printOnce (who : Bytes) : Nat → Bytes → Printing → Printing
  | 0, _, p => p
  | _, [], p => p
  | fuel + 1, b :: format, p =>
    if p.stopped then p
    else if b = 0x5C then
      match format with
      | 0x63 :: _ => { p with stopped := true }
      | _ =>
        let (byte, rest) := escape format
        printOnce who fuel rest (p.put [byte])
    else if b = 0x25 then
      match format with
      | [] => p.breakOff who
      | 0x25 :: rest => printOnce who fuel rest (p.put [0x25])
      | format =>
        let (c, rest) := readFlags {} format
        let (width, rest, p) := readWidth who rest p
        let (precision, rest, p) := match rest with
          | 0x2E :: rest =>
            let (n, rest, p) := readWidth who rest p
            (some (n.getD 0), rest, p)
          | rest => (none, rest, p)
        match rest with
        | [] => p.breakOff who
        | letter :: rest => printOnce who fuel rest (convert who { c with width, precision } letter p)
    else
      let plain := format.takeWhile fun d => d ≠ 0x5C && d ≠ 0x25
      printOnce who fuel (format.dropWhile fun d => d ≠ 0x5C && d ≠ 0x25) (p.put (b :: plain))

def printAll (who format : Bytes) : Nat → Printing → Printing
  | 0, p => p
  | fuel + 1, p =>
    let next := printOnce who (format.length + 1) format p
    if next.stopped || next.unused.isEmpty || next.unused.length = p.unused.length then next
    else printAll who format fuel next

def printf (who format : Bytes) (args : List Bytes) : Bytes × Bytes × Bool :=
  let p := printAll who format (args.length + 1) { unused := args }
  (p.output.reverse.flatten, p.errors.reverse.flatten, p.failed)

end ModuleTree.Shell
