import ModuleTree.Text.Utf8
/- Shell patterns over bytes. -/
namespace ModuleTree.Shell

/-- One byte of a pattern. Quoted bytes stand for themselves. -/
structure Mark where
  byte : UInt8
  quoted : Bool
  deriving DecidableEq, Repr

inductive PatternItem where
  | one (byte : UInt8)
  | any
  | many
  | oneOf (inverted : Bool) (ranges : List (UInt8 × UInt8))
  deriving DecidableEq, Repr

def bracket : List Mark → Option (List (UInt8 × UInt8) × List Mark)
  | [] => none
  | m :: rest =>
    if !m.quoted && m.byte = 0x5D then some ([], rest)
    else
      match rest with
      | dash :: high :: after =>
        if !dash.quoted && dash.byte = 0x2D && !(!high.quoted && high.byte = 0x5D) then
          (bracket after).map fun (ranges, rest) => ((m.byte, high.byte) :: ranges, rest)
        else (bracket (dash :: high :: after)).map fun (ranges, rest) => ((m.byte, m.byte) :: ranges, rest)
      | rest => (bracket rest).map fun (ranges, rest) => ((m.byte, m.byte) :: ranges, rest)

def bracketItem (marks : List Mark) : Option (PatternItem × List Mark) :=
  let (inverted, marks) := match marks with
    | m :: rest => if !m.quoted && (m.byte = 0x21 || m.byte = 0x5E) then (true, rest) else (false, marks)
    | [] => (false, [])
  match marks with
  | m :: rest =>
    if !m.quoted && m.byte = 0x5D then
      (bracket rest).map fun (ranges, rest) => (.oneOf inverted ((m.byte, m.byte) :: ranges), rest)
    else (bracket marks).map fun (ranges, rest) => (.oneOf inverted ranges, rest)
  | [] => none

def compile : Nat → List Mark → List PatternItem
  | 0, _ => []
  | _, [] => []
  | fuel + 1, m :: rest =>
    if m.quoted then .one m.byte :: compile fuel rest
    else if m.byte = 0x2A then .many :: compile fuel rest
    else if m.byte = 0x3F then .any :: compile fuel rest
    else if m.byte = 0x5B then
      match bracketItem rest with
      | some (item, rest) => item :: compile fuel rest
      | none => .one m.byte :: compile fuel rest
    else .one m.byte :: compile fuel rest

def PatternItem.accepts : PatternItem → UInt8 → Bool
  | one byte, b => b = byte
  | any, _ => true
  | many, _ => true
  | oneOf inverted ranges, b => (ranges.any fun r => r.1 ≤ b && b ≤ r.2) != inverted

def someEnd (test : Bytes → Bool) : Bytes → Bool
  | [] => test []
  | b :: rest => test (b :: rest) || someEnd test rest

def matchesItems : List PatternItem → Bytes → Bool
  | [], bytes => bytes.isEmpty
  | [.many], _ => true
  | .many :: items, bytes => someEnd (matchesItems items) bytes
  | _ :: _, [] => false
  | item :: items, b :: bytes => item.accepts b && matchesItems items bytes

def matchesPattern (marks : List Mark) (bytes : Bytes) : Bool :=
  matchesItems (compile (marks.length + 1) marks) bytes

def splitBack (test : Bytes → Bool) : (front back : Bytes) → Option (Bytes × Bytes)
  | front, back =>
    if test back then some (front.reverse, back)
    else
      match front with
      | [] => none
      | b :: front => splitBack test front (b :: back)

def splitForth (test : Bytes → Bool) : (front back : Bytes) → Option (Bytes × Bytes)
  | front, back =>
    if test front.reverse then some (front.reverse, back)
    else
      match back with
      | [] => none
      | b :: back => splitForth test (b :: front) back

def cutEnd (marks : List Mark) (longest : Bool) (bytes : Bytes) : Bytes :=
  let items := compile (marks.length + 1) marks
  if longest then
    -- the longest end is the one behind the shortest front
    match forth items [] bytes with
    | some front => front
    | none => bytes
  else ((splitBack (matchesItems items) bytes.reverse []).map (·.1)).getD bytes
where
  forth (items : List PatternItem) : Bytes → Bytes → Option Bytes
    | front, [] => if matchesItems items [] then some front.reverse else none
    | front, b :: back =>
      if matchesItems items (b :: back) then some front.reverse else forth items (b :: front) back

def cutStart (marks : List Mark) (longest : Bool) (bytes : Bytes) : Bytes :=
  let items := compile (marks.length + 1) marks
  if longest then back items bytes.reverse []
  else ((splitForth (matchesItems items) [] bytes).map (·.2)).getD bytes
where
  back (items : List PatternItem) : Bytes → Bytes → Bytes
    | [], rest => if matchesItems items [] then rest else bytes
    | b :: front, rest =>
      if matchesItems items (b :: front).reverse then rest else back items front (b :: rest)

end ModuleTree.Shell
