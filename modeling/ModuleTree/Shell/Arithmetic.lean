/- Sums in shell scripts: whole numbers of 64 bits, names, and the operators on them. -/
namespace ModuleTree.Shell.Arithmetic

inductive Operator where
  | or
  | and
  | bitOr
  | bitXor
  | bitAnd
  | equal
  | unequal
  | less
  | atMost
  | greater
  | atLeast
  | shiftLeft
  | shiftRight
  | plus
  | minus
  | times
  | quotient
  | remainder
  deriving DecidableEq, Repr

def Operator.level : Operator → Nat
  | or => 1
  | and => 2
  | bitOr => 3
  | bitXor => 4
  | bitAnd => 5
  | equal | unequal => 6
  | less | atMost | greater | atLeast => 7
  | shiftLeft | shiftRight => 8
  | plus | minus => 9
  | times | quotient | remainder => 10

inductive Token where
  | number (value : Int)
  | name (text : String)
  | operator (op : Operator)
  | assign (op : Option Operator)
  | bang
  | tilde
  | question
  | colon
  | opening
  | closing
  deriving DecidableEq, Repr

def marks : List (String × Token) :=
  [("<<=", .assign (some .shiftLeft)), (">>=", .assign (some .shiftRight)),
    ("<<", .operator .shiftLeft), (">>", .operator .shiftRight),
    ("<=", .operator .atMost), (">=", .operator .atLeast),
    ("==", .operator .equal), ("!=", .operator .unequal),
    ("&&", .operator .and), ("||", .operator .or),
    ("+=", .assign (some .plus)), ("-=", .assign (some .minus)),
    ("*=", .assign (some .times)), ("/=", .assign (some .quotient)),
    ("%=", .assign (some .remainder)), ("&=", .assign (some .bitAnd)),
    ("|=", .assign (some .bitOr)), ("^=", .assign (some .bitXor)),
    ("=", .assign none), ("<", .operator .less), (">", .operator .greater),
    ("&", .operator .bitAnd), ("|", .operator .bitOr), ("^", .operator .bitXor),
    ("+", .operator .plus), ("-", .operator .minus), ("*", .operator .times),
    ("/", .operator .quotient), ("%", .operator .remainder), ("!", .bang), ("~", .tilde),
    ("?", .question), (":", .colon), ("(", .opening), (")", .closing)]

inductive Fault where
  | expecting (what : String)
  | divisionByZero
  | notNumber (text : String)
  deriving DecidableEq, Repr

def Fault.message (sum : String) : Fault → String
  | expecting what => s!"arithmetic expression: expecting {what}: " ++ "\"" ++ sum ++ "\""
  | divisionByZero => "arithmetic expression: division by zero: \"" ++ sum ++ "\""
  | notNumber text => s!"Illegal number: {text}"

def digitValue (c : Char) : Nat :=
  if c.isDigit then c.toNat - '0'.toNat
  else if 'a' ≤ c && c ≤ 'f' then c.toNat - 'a'.toNat + 10
  else if 'A' ≤ c && c ≤ 'F' then c.toNat - 'A'.toNat + 10
  else 16

def readBase (base value : Nat) : List Char → Nat × List Char
  | [] => (value, [])
  | c :: s =>
    if digitValue c < base then readBase base (value * base + digitValue c) s else (value, c :: s)

def readNumeral (s : List Char) : Int × List Char :=
  let (value, rest) :=
    match s with
    | '0' :: 'x' :: s => readBase 16 0 s
    | '0' :: 'X' :: s => readBase 16 0 s
    | '0' :: s => readBase 8 0 s
    | s => readBase 10 0 s
  (Int.ofNat (min value 0x7FFFFFFFFFFFFFFF), rest)

def isBlank (c : Char) : Bool := c = ' ' || c = '\t' || c = '\n'

def numberOf? (text : List Char) : Option Int :=
  let bare := ((text.dropWhile isBlank).reverse.dropWhile isBlank).reverse
  let (negative, digits) :=
    match bare with
    | '-' :: s => (true, s)
    | '+' :: s => (false, s)
    | s => (false, s)
  match readNumeral digits with
  | (value, []) =>
    if digits.isEmpty && !bare.isEmpty then none else some (if negative then -value else value)
  | _ => none

def markAt? (s : List Char) : Option (Token × List Char) :=
  marks.findSome? fun (text, token) =>
    if text.toList.isPrefixOf s then some (token, s.drop text.length) else none

def tokens : Nat → List Char → List Token × List Char
  | 0, s => ([], s)
  | fuel + 1, s =>
    match s.dropWhile isBlank with
    | [] => ([], [])
    | c :: s =>
      if c.isDigit then
        let (value, rest) := readNumeral (c :: s)
        let (more, left) := tokens fuel rest
        (.number value :: more, left)
      else if c.isAlpha || c = '_' then
        let isPart (d : Char) : Bool := d.isAlphanum || d = '_'
        let (more, left) := tokens fuel (s.dropWhile isPart)
        (.name (String.ofList (c :: s.takeWhile isPart)) :: more, left)
      else
        match markAt? (c :: s) with
        | none => ([], c :: s)
        | some (token, rest) =>
          let (more, left) := tokens fuel rest
          (token :: more, left)

inductive Term where
  | number (value : Int)
  | name (text : String)
  | negative (operand : Term)
  | complement (operand : Term)
  | isZero (operand : Term)
  | binary (op : Operator) (first second : Term)
  | choice (test first second : Term)
  | assign (name : String) (op : Option Operator) (operand : Term)
  deriving Repr

abbrev Read := Except Fault (Term × List Token)

mutual

def readTerm : Nat → List Token → Read
  | 0, _ => .error (.expecting "primary")
  | fuel + 1, .name x :: .assign op :: rest =>
    (readTerm fuel rest).map fun (operand, rest) => (.assign x op operand, rest)
  | fuel + 1, tokens =>
    match readBinary fuel 1 tokens with
    | .error e => .error e
    | .ok (test, .question :: rest) =>
      match readTerm fuel rest with
      | .error e => .error e
      | .ok (first, .colon :: rest) =>
        (readTerm fuel rest).map fun (second, rest) => (.choice test first second, rest)
      | .ok _ => .error (.expecting "':'")
    | .ok (test, rest) => .ok (test, rest)

/-- A chain of operators that bind at least as tightly as a level. -/
def readBinary : Nat → Nat → List Token → Read
  | 0, _, _ => .error (.expecting "primary")
  | fuel + 1, level, tokens =>
    match readUnary fuel tokens with
    | .error e => .error e
    | .ok (first, rest) => readChain fuel level first rest

def readChain : Nat → Nat → Term → List Token → Read
  | 0, _, first, rest => .ok (first, rest)
  | fuel + 1, level, first, .operator op :: rest =>
    if op.level < level then .ok (first, .operator op :: rest)
    else
      match readBinary fuel (op.level + 1) rest with
      | .error e => .error e
      | .ok (second, rest) => readChain fuel level (.binary op first second) rest
  | _ + 1, _, first, rest => .ok (first, rest)

def readUnary : Nat → List Token → Read
  | 0, _ => .error (.expecting "primary")
  | _ + 1, .number n :: rest => .ok (.number n, rest)
  | _ + 1, .name x :: rest => .ok (.name x, rest)
  | fuel + 1, .operator .plus :: rest => readUnary fuel rest
  | fuel + 1, .operator .minus :: rest => (readUnary fuel rest).map fun (t, rest) => (.negative t, rest)
  | fuel + 1, .bang :: rest => (readUnary fuel rest).map fun (t, rest) => (.isZero t, rest)
  | fuel + 1, .tilde :: rest => (readUnary fuel rest).map fun (t, rest) => (.complement t, rest)
  | fuel + 1, .opening :: rest =>
    match readTerm fuel rest with
    | .error e => .error e
    | .ok (t, .closing :: rest) => .ok (t, rest)
    | .ok _ => .error (.expecting "')'")
  | _ + 1, _ => .error (.expecting "primary")

end

def Term.ofText (text : List Char) : Except Fault Term :=
  let (read, left) := tokens (text.length + 1) text
  match readTerm (4 * read.length + 4) read with
  | .error e => .error e
  | .ok (t, []) => if left.isEmpty then .ok t else .error (.expecting "EOF")
  | .ok _ => .error (.expecting "EOF")

def wrap (n : Int) : Int := n.bmod 0x10000000000000000

def word (n : Int) : BitVec 64 := BitVec.ofInt 64 n

def truth (b : Bool) : Int := if b then 1 else 0

def Operator.apply (op : Operator) (a b : Int) : Except Fault Int :=
  match op with
  | or => .ok (truth (a ≠ 0 || b ≠ 0))
  | and => .ok (truth (a ≠ 0 && b ≠ 0))
  | bitOr => .ok (word a ||| word b).toInt
  | bitXor => .ok (word a ^^^ word b).toInt
  | bitAnd => .ok (word a &&& word b).toInt
  | equal => .ok (truth (a = b))
  | unequal => .ok (truth (a ≠ b))
  | less => .ok (truth (a < b))
  | atMost => .ok (truth (a ≤ b))
  | greater => .ok (truth (b < a))
  | atLeast => .ok (truth (b ≤ a))
  | shiftLeft => .ok ((word a).shiftLeft (b % 64).toNat).toInt
  | shiftRight => .ok ((word a).sshiftRight (b % 64).toNat).toInt
  | plus => .ok (wrap (a + b))
  | minus => .ok (wrap (a - b))
  | times => .ok (wrap (a * b))
  | quotient => if b = 0 then .error .divisionByZero else .ok (wrap (a.tdiv b))
  | remainder => if b = 0 then .error .divisionByZero else .ok (a.tmod b)

abbrev Assigned := List (String × Int)

def numberOfName (before : String → Except Fault Int) (set : Assigned) (name : String) :
    Except Fault Int :=
  match set.lookup name with
  | some n => .ok n
  | none => before name

/-- The value of a term, and what it sets. A second operand that cannot matter is left alone. -/
def Term.value (before : String → Except Fault Int) :
    Term → Assigned → Except Fault (Int × Assigned)
  | number n, set => .ok (n, set)
  | name x, set => (numberOfName before set x).map fun n => (n, set)
  | negative t, set => (t.value before set).map fun (n, set) => (wrap (-n), set)
  | complement t, set => (t.value before set).map fun (n, set) => (-n - 1, set)
  | isZero t, set => (t.value before set).map fun (n, set) => (truth (n = 0), set)
  | binary op first second, set =>
    match first.value before set with
    | .error e => .error e
    | .ok (a, set) =>
      if op = .or && a ≠ 0 then .ok (1, set)
      else if op = .and && a = 0 then .ok (0, set)
      else
        match second.value before set with
        | .error e => .error e
        | .ok (b, set) => (op.apply a b).map fun n => (n, set)
  | choice test first second, set =>
    match test.value before set with
    | .error e => .error e
    | .ok (n, set) => if n ≠ 0 then first.value before set else second.value before set
  | assign x op operand, set =>
    match operand.value before set with
    | .error e => .error e
    | .ok (b, set) =>
      match op with
      | none => .ok (b, (x, b) :: set)
      | some op =>
        match numberOfName before set x with
        | .error e => .error e
        | .ok a => (op.apply a b).map fun n => (n, (x, n) :: set)

def value (before : String → Except Fault Int) (text : String) : Except Fault (Int × Assigned) :=
  match Term.ofText text.toList with
  | .error e => .error e
  | .ok t => t.value before []

end ModuleTree.Shell.Arithmetic
