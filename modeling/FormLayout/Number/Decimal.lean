import FormLayout.Number.Binary64
/-!
Decimal numbers: the shortest one that reads back as a given floating point number, and the
floating point number nearest to a given one.
-/

namespace FormLayout

/-- The number `digits * 10 ^ exponent`. -/
structure Decimal where
  digits : Nat
  exponent : Int
  deriving DecidableEq, Repr

namespace Decimal

def digitCount (n : Nat) : Nat := if n = 0 then 0 else (Nat.toDigits 10 n).length

/-- The nearest floating point number. Beyond the range of exponents the answer is known without
writing the power of ten out. -/
def nearest? (negative : Bool) (d : Decimal) : Option Binary64 :=
  if d.digits = 0 then some (Binary64.zero negative)
  else
    let size := (digitCount d.digits : Int) + d.exponent
    if 310 < size then none
    else if size < -330 then some (Binary64.zero negative)
    else Binary64.nearest? negative (d.digits * Nat.pow 10 d.exponent.toNat)
      (Nat.pow 10 (-d.exponent).toNat)

/-- The place of the first digit: the greatest `e` with `10 ^ e ≤ num / den`. -/
def leadingExponent (num den : Nat) : Int :=
  if den ≤ num then (digitCount (num / den) : Int) - 1
  else -(digitCount ((den + num - 1) / num - 1) : Int)

/-- The decimal of the grid `10 ^ exponent` that is nearest to the number with the given 63 bits
among the two next to it, if one of them still reads back as this number. -/
def onGrid? (magnitude : Nat) (exponent : Int) : Option Decimal :=
  let value := 2 * Binary64.unitsOf magnitude
  let low := Binary64.unitsOf (magnitude - 1) + Binary64.unitsOf magnitude
  let high := Binary64.unitsOf magnitude + Binary64.unitsOf (magnitude + 1)
  let step := Nat.pow 10 exponent.toNat * Nat.pow 2 1075
  let scale := Nat.pow 10 (-exponent).toNat
  let inside (d : Nat) : Bool :=
    if magnitude % 2 = 0 then low * scale ≤ d * step && d * step ≤ high * scale
    else low * scale < d * step && d * step < high * scale
  let below := value * scale / step
  let nearest := roundDiv (value * scale) step
  let other := if nearest = below then below + 1 else below
  if inside nearest then some ⟨nearest, exponent⟩
  else if inside other then some ⟨other, exponent⟩
  else none

/-- Tries the grids from one digit on; seventeen digits are always enough. -/
def firstOnGrid (magnitude : Nat) (leading : Int) : Nat → Nat → Decimal
  | 0, places => ⟨Binary64.unitsOf magnitude, leading - places⟩
  | more + 1, places =>
    match onGrid? magnitude (leading - places) with
    | some d => d
    | none => firstOnGrid magnitude leading more (places + 1)

/-- Moves the zeros at the end of the digits into the exponent. -/
def strip : Nat → Decimal → Decimal
  | 0, d => d
  | n + 1, d =>
    if d.digits % 10 = 0 && d.digits != 0 then strip n ⟨d.digits / 10, d.exponent + 1⟩ else d

/-- The decimal with the fewest digits that reads back as the given number. -/
def shortest (x : Binary64) : Decimal :=
  if x.magnitude = 0 then ⟨0, 0⟩
  else
    let d := firstOnGrid x.magnitude (leadingExponent x.units (Nat.pow 2 1074)) 17 0
    strip (digitCount d.digits) d

end Decimal

/-- How a floating point number is written: the exponents written without exponent mark, and
whether a positive exponent has a sign. -/
structure FloatFormat where
  least : Int
  greatest : Int
  plus : Bool

/-- Writes the decimal `d` with a fraction part, or with an exponent outside the format's range. -/
def FloatFormat.positive (fmt : FloatFormat) (d : Decimal) : String :=
  let ds := Nat.toDigits 10 d.digits
  let zeros (n : Nat) : List Char := List.replicate n '0'
  let x : Int := ds.length - 1 + d.exponent
  String.ofList <|
    if fmt.least ≤ x && x ≤ fmt.greatest then
      if x < 0 then '0' :: '.' :: (zeros (-x - 1).toNat ++ ds)
      else if 0 ≤ d.exponent then ds ++ zeros d.exponent.toNat ++ ['.', '0']
      else ds.take (x.toNat + 1) ++ '.' :: ds.drop (x.toNat + 1)
    else
      let mark := if x < 0 then ['e', '-'] else if fmt.plus then ['e', '+'] else ['e']
      let fraction := if ds.length = 1 then [] else '.' :: ds.drop 1
      ds.take 1 ++ fraction ++ mark ++ Nat.toDigits 10 x.natAbs

def FloatFormat.write (fmt : FloatFormat) (x : Binary64) : String :=
  (if x.negative then "-" else "") ++
    (if x.magnitude = 0 then "0.0" else fmt.positive (Decimal.shortest x))

end FormLayout
