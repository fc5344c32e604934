/-!
The shortest decimal of a double: the fewest digits that read back as the same double, and of
those the decimal nearest to it. An exact tie between two neighbours goes to the larger one.

A double is `mantissa · 2 ^ exponent`. The reals that round to it form an interval around it, whose
ends belong to it exactly when the mantissa is even. All tests below are on natural numbers.
-/

namespace ModuleLoader.Decimal
set_option autoImplicit false

/-- What the bits of a double say. -/
inductive Binary where
  | nan
  | infinite (negative : Bool)
  | finite (negative : Bool) (mantissa : Nat) (exponent : Int)
deriving Repr, DecidableEq

/-- A decimal `digits · 10 ^ exponent`. -/
structure Digits where
  digits : Nat
  exponent : Int
deriving Repr, DecidableEq

/-- The bit that every mantissa has except at the bottom of the range, two to the power 52. -/
def leadingBit : Nat := 4503599627370496

/-- Splits a double into sign, mantissa and exponent. -/
def Binary.ofBits (bits : Nat) : Binary :=
  let negative : Bool := bits / leadingBit / 2048 % 2 = 1
  let biased : Nat := bits / leadingBit % 2048
  let fraction : Nat := bits % leadingBit
  if biased = 2047 then
    if fraction = 0 then .infinite negative else .nan
  else if biased = 0 then .finite negative fraction (-1074)
  else .finite negative (fraction + leadingBit) ((biased : Int) - 1075)

/-- The reals that round to a double, in units of `1 / scale`. -/
structure Interval where
  low : Nat
  centre : Nat
  high : Nat
  scale : Nat
  closed : Bool

/-- The interval of `mantissa · 2 ^ exponent`. Below a power of two the neighbours are twice as
close, except at the bottom of the range. -/
def Interval.ofBinary (mantissa : Nat) (exponent : Int) : Interval :=
  let below := if mantissa = leadingBit ∧ exponent ≠ -1074 then 1 else 2
  let up := Nat.pow 2 (exponent - 2).toNat
  { low := (4 * mantissa - below) * up
    centre := 4 * mantissa * up
    high := (4 * mantissa + 2) * up
    scale := Nat.pow 2 (2 - exponent).toNat
    closed := mantissa % 2 = 0 }

/-- Whether `point / grid` lies in the interval. -/
def Interval.holds (interval : Interval) (point grid : Nat) : Bool :=
  if interval.closed then
    interval.low * grid ≤ point * interval.scale ∧ point * interval.scale ≤ interval.high * grid
  else interval.low * grid < point * interval.scale ∧ point * interval.scale < interval.high * grid

/-- How many zeros follow the point of a number below one, given as a fraction. -/
def leadingZeros (numerator denominator : Nat) : Nat → Nat
  | 0 => 0
  | fuel + 1 =>
    if numerator * 10 < denominator then leadingZeros (numerator * 10) denominator fuel + 1 else 0

/-- The `k` with `10 ^ (k - 1) ≤ numerator / denominator < 10 ^ k`. -/
def pointPosition (numerator denominator : Nat) : Int :=
  if denominator ≤ numerator then (Nat.toDigits 10 (numerator / denominator)).length
  else -(leadingZeros numerator denominator 400 : Int)

/-- The number of the interval on the grid of step `10 ^ (-places)` nearest to its centre, if the
grid meets the interval. -/
def Interval.nearestOn (interval : Interval) (places : Int) : Option Nat :=
  let grid := Nat.pow 10 places.toNat
  let coarse := Nat.pow 10 (-places).toNat
  let unit := interval.scale * coarse
  let point := interval.centre * grid / unit
  let down := interval.holds (point * coarse) grid
  let up := interval.holds ((point + 1) * coarse) grid
  if down && up then
    if interval.centre * grid - point * unit < (point + 1) * unit - interval.centre * grid then
      some point
    else some (point + 1)
  else if down then some point
  else if up then some (point + 1)
  else none

/-- Tries ever finer grids. -/
def Interval.search (interval : Interval) (position : Int) (count : Nat) : Nat → Digits
  | 0 => ⟨0, 0⟩
  | fuel + 1 =>
    match interval.nearestOn ((count : Int) - position) with
    | some digits => ⟨digits, position - count⟩
    | none => interval.search position (count + 1) fuel

/-- Moves trailing zeros of the digits into the exponent. -/
def Digits.trim (digits : Nat) (exponent : Int) : Nat → Digits
  | 0 => ⟨digits, exponent⟩
  | fuel + 1 =>
    if digits ≠ 0 ∧ digits % 10 = 0 then Digits.trim (digits / 10) (exponent + 1) fuel
    else ⟨digits, exponent⟩

/-- The shortest decimal of `mantissa · 2 ^ exponent`; seventeen digits always suffice. -/
def shortest (mantissa : Nat) (exponent : Int) : Digits :=
  if mantissa = 0 then ⟨0, 0⟩
  else
    let interval := Interval.ofBinary mantissa exponent
    let found := interval.search (pointPosition interval.centre interval.scale) 1 18
    Digits.trim found.digits found.exponent 20

end ModuleLoader.Decimal
