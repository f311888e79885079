/- Shortest decimal texts of doubles. The digits are the fewest that read back to the
   same double, and of those the nearest to it; an exact tie goes to the even digit. -/
namespace ModuleTree.Decimal

def twoTo (n : Nat) : Nat := Nat.pow 2 n

def tenTo (n : Nat) : Nat := Nat.pow 10 n

/-- A positive double `mantissa * 2 ^ exponent`; `narrow` when the gap below it is half
the gap above. -/
structure Binary where
  mantissa : Nat
  exponent : Int
  narrow : Bool

def Binary.ofBits (bits : Nat) : Binary :=
  let fraction : Nat := bits % twoTo 52
  let biased : Nat := bits / twoTo 52 % twoTo 11
  if biased = 0 then ⟨fraction, -1074, false⟩
  else ⟨twoTo 52 + fraction, (biased : Int) - 1075, fraction = 0 && 1 < biased⟩

/-- A value `numerator / denominator` together with the reals that round to it, all four
times as large so that the ends are whole. -/
structure Interval where
  value : Nat
  below : Nat
  above : Nat
  denominator : Nat
  closed : Bool

def Binary.interval (b : Binary) : Interval :=
  let up := b.exponent.toNat
  let down := (-b.exponent).toNat
  let unit := twoTo up
  ⟨4 * b.mantissa * unit, (4 * b.mantissa - if b.narrow then 1 else 2) * unit,
    (4 * b.mantissa + 2) * unit, 4 * twoTo down, b.mantissa % 2 = 0⟩

def Interval.holds (i : Interval) (numerator denominator : Nat) : Bool :=
  let x := numerator * i.denominator
  let low := i.below * denominator
  let high := i.above * denominator
  if i.closed then low ≤ x && x ≤ high else low < x && x < high

def leadingPower (numerator denominator : Nat) : Nat → Int → Int
  | 0, power => power
  | fuel + 1, power =>
    let up := tenTo power.toNat
    let down := tenTo (-power).toNat
    if numerator * down < denominator * up then leadingPower numerator denominator fuel (power - 1)
    else power

/-- On the grid of multiples of `10 ^ power`, the point nearest to the value that reads
back, if there is one. -/
def Interval.onGrid (i : Interval) (power : Int) : Option Nat :=
  let up := tenTo power.toNat
  let down := tenTo (-power).toNat
  let scaled := i.value * down
  let unit := i.denominator * up
  let low := scaled / unit
  let twice := 2 * (scaled % unit)
  let lowFits := i.holds (low * up) down && low ≠ 0
  let highFits := i.holds ((low + 1) * up) down
  if lowFits && highFits then
    some (if twice < unit || (twice = unit && low % 2 = 0) then low else low + 1)
  else if lowFits then some low
  else if highFits then some (low + 1)
  else none

def Interval.shortest (i : Interval) : Nat → Int → Nat × Int
  | 0, power => ((i.onGrid power).getD 0, power)
  | fuel + 1, power =>
    match i.onGrid power with
    | some digits => (digits, power)
    | none => i.shortest fuel (power - 1)

def dropZeros : Nat → Nat → Int → Nat × Int
  | 0, digits, power => (digits, power)
  | fuel + 1, digits, power =>
    if digits ≠ 0 && digits % 10 = 0 then dropZeros fuel (digits / 10) (power + 1)
    else (digits, power)

def layout (digits : Nat) (power : Int) : String :=
  let text := (toString digits).toList
  let point := text.length + power
  if 0 ≤ power && point ≤ 16 then
    String.ofList (text ++ List.replicate power.toNat '0') ++ ".0"
  else if 0 < point && point ≤ 16 then
    String.ofList (text.take point.toNat ++ '.' :: text.drop point.toNat)
  else if -5 < point && point ≤ 0 then
    String.ofList ('0' :: '.' :: List.replicate (-point).toNat '0' ++ text)
  else
    let mark := if text.length = 1 then text else text.take 1 ++ '.' :: text.drop 1
    s!"{String.ofList mark}e{point - 1}"

def shortest (x : Float) : String :=
  let bits := x.toBits.toNat
  let sign := if twoTo 63 ≤ bits then "-" else ""
  let b := Binary.ofBits (bits % twoTo 63)
  if b.mantissa = 0 then sign ++ "0.0"
  else
    let i := b.interval
    let top := leadingPower i.value i.denominator 700 309
    let (digits, power) := i.shortest 18 (top + 1)
    let (digits, power) := dropZeros 400 digits power
    sign ++ layout digits power

end ModuleTree.Decimal
