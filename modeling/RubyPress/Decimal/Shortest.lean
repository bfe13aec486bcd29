/-!
Decimal text of binary floating-point numbers: the fewest digits that read back as the same
number, and of those the nearest. All comparisons are exact, in natural numbers.
-/

namespace RubyPress.Decimal

/-- A positive number `significand · 2 ^ exponent`. The gap to the next smaller number is half
the gap to the next larger one when `narrowBelow` holds. -/
structure Binary where
  significand : Nat
  exponent : Int
  narrowBelow : Bool

/-- One more than the largest fraction field of a number. -/
def fractionSize : Nat := 4503599627370496

/-- The magnitude of a finite number, from its bits without the sign. -/
def Binary.ofBits (bits : Nat) : Binary :=
  let fraction : Nat := bits % fractionSize
  let scale : Nat := bits / fractionSize
  if scale = 0 then ⟨fraction, -1074, false⟩
  else ⟨fractionSize + fraction, (scale : Int) - 1075, fraction = 0 ∧ 1 < scale⟩

structure Ratio where
  num : Nat
  den : Nat

def Ratio.le (x y : Ratio) : Bool := x.num * y.den ≤ y.num * x.den

def Ratio.ofDecimal (digits : Nat) (exponent : Int) : Ratio :=
  ⟨digits * Nat.pow 10 exponent.toNat, Nat.pow 10 (-exponent).toNat⟩

namespace Binary

/-- A number of quarters of the unit in the last place. -/
def quarters (x : Binary) (count : Nat) : Ratio :=
  ⟨count * Nat.pow 2 x.exponent.toNat, 4 * Nat.pow 2 (-x.exponent).toNat⟩

def value (x : Binary) : Ratio := x.quarters (4 * x.significand)

/-- The least and the greatest real that round to the number, which belong to the interval when
the significand is even. -/
def lowest (x : Binary) : Ratio :=
  x.quarters (4 * x.significand - if x.narrowBelow then 1 else 2)

def highest (x : Binary) : Ratio := x.quarters (4 * x.significand + 2)

/-- Whether a decimal reads back as the number. -/
def readsBack (x : Binary) (candidate : Ratio) : Bool :=
  if x.significand % 2 = 0 then x.lowest.le candidate && candidate.le x.highest
  else !candidate.le x.lowest && !x.highest.le candidate

/-- The least power of ten from `exponent` on, within `steps`, that is above the number, less
one: the exponent of the number's leading digit. -/
def leadingExponent (x : Binary) : Nat → Int → Int
  | 0, exponent => exponent
  | steps + 1, exponent =>
    if (Ratio.ofDecimal 1 (exponent + 1)).le x.value then leadingExponent x steps (exponent + 1)
    else exponent

/-- The digits at a grid of spacing `10 ^ exponent` that read back, the nearer of the two
neighbours first and the even one at a tie. -/
def onGrid (x : Binary) (exponent : Int) : Option Nat :=
  let unit := Ratio.ofDecimal 1 exponent
  let below := x.value.num * unit.den / (x.value.den * unit.num)
  let above := below + 1
  let lowOk := x.readsBack (Ratio.ofDecimal below exponent)
  let highOk := x.readsBack (Ratio.ofDecimal above exponent)
  let twice := 2 * x.value.num * unit.den
  let middle := (2 * below + 1) * (x.value.den * unit.num)
  let preferLow := twice < middle || (twice == middle && below % 2 == 0)
  if lowOk && (preferLow || !highOk) then some below
  else if highOk then some above
  else none

/-- The first grid, from the leading digit down, that holds a decimal which reads back. -/
def shortestFrom (x : Binary) : Nat → Int → Nat × Int
  | 0, exponent => (x.significand, exponent)
  | steps + 1, exponent =>
    match x.onGrid exponent with
    | some digits => (digits, exponent)
    | none => shortestFrom x steps (exponent - 1)

def shortest (x : Binary) : Nat × Int :=
  shortestFrom x 18 (x.leadingExponent 700 (-330))

end Binary

/-- Digits and exponent with the trailing zeros moved into the exponent. -/
def trimZeros : Nat → Nat × Int → Nat × Int
  | 0, decimal => decimal
  | steps + 1, (digits, exponent) =>
    if digits ≠ 0 ∧ digits % 10 = 0 then trimZeros steps (digits / 10, exponent + 1)
    else (digits, exponent)

/-- Positional notation with at least one place on either side of the point when the leading
digit stands between the fifth place after the point and the sixteenth before it, scientific
notation with a signed exponent otherwise. -/
def layout (digits : Nat) (exponent : Int) : String :=
  let text := (Nat.toDigits 10 digits)
  let leading := exponent + (text.length : Int) - 1
  String.ofList <|
    if leading < -5 ∨ 15 < leading then
      text.take 1 ++ (if text.length = 1 then [] else '.' :: text.drop 1) ++
        'e' :: (if leading < 0 then '-' else '+') :: Nat.toDigits 10 leading.natAbs
    else if leading < 0 then
      '0' :: '.' :: List.replicate (-leading - 1).toNat '0' ++ text
    else if 0 ≤ exponent then
      text ++ List.replicate exponent.toNat '0' ++ ['.', '0']
    else
      text.take (leading.toNat + 1) ++ '.' :: text.drop (leading.toNat + 1)

def signBit : Nat := 9223372036854775808

def text (x : Float) : String :=
  let bits := x.toBits.toNat
  let magnitude := bits % signBit
  let sign := if signBit ≤ bits then "-" else ""
  if magnitude = 0 then sign ++ "0.0"
  else
    let (digits, exponent) := trimZeros 20 (Binary.ofBits magnitude).shortest
    sign ++ layout digits exponent

end RubyPress.Decimal
