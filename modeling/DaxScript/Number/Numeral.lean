import DaxScript.Number.Binary64
import DaxScript.Number.PowerOfTen

/-!
# Reading numerals

A numeral is a run of digits with at most one point in it, before it or after it, and at least one
digit.  It denotes a quotient of whole numbers, and its value is the nearest binary64 number.
-/

set_option autoImplicit false

namespace DaxScript.Numeral

/-- The whole number that a run of digits denotes. -/
def wholeNumber (digits : List Char) : Nat :=
  digits.foldl (fun value digit => 10 * value + (digit.toNat - '0'.toNat)) 0

/-- The quotient that a numeral denotes, as numerator and denominator, or `none` for a text that
is no numeral. -/
def ratio? (text : List Char) : Option (Nat × Nat) :=
  let whole := text.takeWhile Char.isDigit
  match text.dropWhile Char.isDigit with
  | [] => if whole.isEmpty then none else some (wholeNumber whole, 1)
  | point :: fraction =>
    if point = '.' ∧ fraction.all Char.isDigit ∧ ¬(whole.isEmpty ∧ fraction.isEmpty) then
      some (wholeNumber (whole ++ fraction), powerOfTen fraction.length)
    else none

/-- The value of a numeral, or `none` for a text that is no numeral. -/
def value? (text : List Char) : Option Binary64 :=
  (ratio? text).map fun ratio => Binary64.ofRatio ratio.1 ratio.2

end DaxScript.Numeral
