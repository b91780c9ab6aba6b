import DaxScript.Number.Binary64
import DaxScript.Number.PowerOfTen

/-!
# The shortest decimal of a binary64 number

Among all decimals that are nearer to a given number than to any other binary64 number, one with
the fewest significant digits is shown, and of those the nearest.  The decimals that read back as
the number form an interval whose ends lie half way to its two neighbours, so the search runs
over the grids `10 ^ k` from coarse to fine and stops at the first that has a point in the
interval.  When a grid has one, the two grid points around the number include one.
-/

set_option autoImplicit false

namespace DaxScript

/-- The decimal fraction `coefficient * 10 ^ exponent`. -/
structure Decimal where
  coefficient : Nat
  exponent : Int
  deriving DecidableEq

namespace Decimal

/-- The text of a decimal without an exponent.  Zeros that would end the fraction are left out,
and with them the point when nothing follows it. -/
def render (decimal : Decimal) : String :=
  let scaled := decimal.coefficient * powerOfTen decimal.exponent.toNat
  let places := (-decimal.exponent).toNat
  let digits := Nat.toDigits 10 (scaled % powerOfTen places)
  let fraction := List.replicate (places - digits.length) '0' ++ digits
  let significant := (fraction.reverse.dropWhile (· == '0')).reverse
  let whole := toString (scaled / powerOfTen places)
  if significant.isEmpty then whole else whole ++ "." ++ String.ofList significant

end Decimal

namespace Binary64

/-- The decimals that read back as a number, in units of `2 ^ (-1076)`: from `low` to `high`
around `middle`, the ends included when `closed`. -/
structure Neighbourhood where
  low : Nat
  middle : Nat
  high : Nat
  closed : Bool

/-- The neighbourhood of a finite number.  Below a power of two the next number is only half as
far away as above it.  An end lies half way between two numbers and reads back as the one with
the even significand. -/
def neighbourhood (significand exponent : Nat) : Neighbourhood :=
  let below := if significand = leadingBit ∧ 0 < exponent then 1 else 2
  { low := (4 * significand - below) <<< exponent
    middle := (4 * significand) <<< exponent
    high := (4 * significand + 2) <<< exponent
    closed := significand % 2 == 0 }

/-- Whether the quotient `numerator / denominator` of units lies in the neighbourhood. -/
def Neighbourhood.contains (around : Neighbourhood) (numerator denominator : Nat) : Bool :=
  if around.closed then
    around.low * denominator ≤ numerator && numerator ≤ around.high * denominator
  else
    around.low * denominator < numerator && numerator < around.high * denominator

/-- The point of the grid `10 ^ exponent` that stands for the number, if the grid has one in the
neighbourhood: the nearer of the two around the number, and the upper one half way between. -/
def Neighbourhood.gridPoint? (around : Neighbourhood) (exponent : Int) : Option Nat :=
  let step := powerOfTen exponent.toNat <<< 1076
  let scale := powerOfTen (-exponent).toNat
  let lower := around.middle * scale / step
  let upper := lower + 1
  let holdsLower := around.contains (lower * step) scale
  let holdsUpper := around.contains (upper * step) scale
  let upperIsNearer := (lower + upper) * step ≤ 2 * (around.middle * scale)
  if holdsUpper && (upperIsNearer || !holdsLower) then some upper
  else if holdsLower then some lower
  else none

/-- The decimal on the first grid that has one, going down from a grid for as many grids as
`finer` says.  The last grid, `10 ^ (-1074)`, holds every number exactly. -/
def Neighbourhood.coarsest (around : Neighbourhood) : (finer : Nat) → (exponent : Int) → Decimal
  | 0, _ => ⟨(around.middle * powerOfTen 1074) >>> 1076, -1074⟩
  | finer + 1, exponent =>
    match around.gridPoint? exponent with
    | some coefficient => ⟨coefficient, exponent⟩
    | none => around.coarsest finer (exponent - 1)

/-- The shortest decimal that reads back as a finite number.  The search starts at a power of ten
above the whole neighbourhood. -/
def shortestDecimal (significand exponent : Nat) : Decimal :=
  if significand = 0 then ⟨0, 0⟩
  else
    let around := neighbourhood significand exponent
    let digits := (Nat.toDigits 10 (around.high >>> 1076)).length
    around.coarsest (digits + 1074) digits

/-- The text of a number in messages. -/
def render : Binary64 → String
  | finite significand exponent => (shortestDecimal significand exponent).render
  | infinite => "inf"

end Binary64

end DaxScript
