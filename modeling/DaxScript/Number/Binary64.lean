/-!
# Non-negative binary64 numbers

A number literal denotes the binary64 number nearest to what is written.  Literals have no sign,
so the numbers here are zero, the positive finite ones and infinity.

A finite number is a whole multiple of the smallest positive one, `2 ^ (-1074)`, and this module
measures everything in that unit.  A number is then its significand shifted left by its exponent,
and rounding a quotient compares whole numbers only.
-/

set_option autoImplicit false

namespace DaxScript

/-- A binary64 number without a sign. -/
inductive Binary64 where
  /-- The number `significand * 2 ^ exponent`, in units of `2 ^ (-1074)`. -/
  | finite (significand exponent : Nat)
  | infinite
  deriving DecidableEq

namespace Binary64

/-- The quotient of two whole numbers rounded to the nearest whole number, a half to the even
one. -/
def roundHalfEven (numerator denominator : Nat) : Nat :=
  let quotient := numerator / denominator
  let twice := 2 * (numerator % denominator)
  if twice < denominator then quotient
  else if denominator < twice then quotient + 1
  else if quotient % 2 = 0 then quotient
  else quotient + 1

/-- The leading bit of a significand that uses all its 53 bits. -/
def leadingBit : Nat := 1 <<< 52

/-- The number with at most 53 significant bits for a significand of at most `2 ^ 53`.  A
significand that has been rounded up to `2 ^ 53` moves on to the next exponent, and past the
largest exponent lies infinity. -/
def normalize (significand exponent : Nat) : Binary64 :=
  if significand < 2 * leadingBit then
    if exponent ≤ 2045 then finite significand exponent else infinite
  else
    if exponent + 1 ≤ 2045 then finite leadingBit (exponent + 1) else infinite

/-- The binary64 number nearest to a quotient, a half to the even significand. -/
def ofRatio (numerator denominator : Nat) : Binary64 :=
  let units := numerator <<< 1074
  let exponent := (units / denominator).log2 - 52
  normalize (roundHalfEven units (denominator <<< exponent)) exponent

/-- The 64 bits of the interchange format: eleven of the exponent, biased so that only the
numbers below the smallest normal one have none set, and 52 of the significand. -/
def toBits : Binary64 → Nat
  | finite significand exponent =>
    if significand < leadingBit then significand
    else ((exponent + 1) <<< 52) + (significand - leadingBit)
  | infinite => 0x7FF <<< 52

/-- The whole number that a number is equal to, if it is a whole number. -/
def toNat? : Binary64 → Option Nat
  | finite significand exponent =>
    let units := significand <<< exponent
    if units % (1 <<< 1074) = 0 then some (units >>> 1074) else none
  | infinite => none

end Binary64

end DaxScript
