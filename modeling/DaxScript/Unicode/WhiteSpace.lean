import DaxScript.Unicode.Ranges

/-!
# The White_Space property

White space separates tokens and is trimmed from the texts of measures.  It is the Unicode
property White_Space: the blanks of ASCII and nineteen spaces and separators past it.
-/

set_option autoImplicit false

namespace DaxScript.Unicode

/-- The characters with the property White_Space, as inclusive ranges. -/
def whiteSpaceRanges : List (Nat × Nat) := [
  (0x9, 0xD), (0x20, 0x20), (0x85, 0x85), (0xA0, 0xA0), (0x1680, 0x1680), (0x2000, 0x200A),
  (0x2028, 0x2029), (0x202F, 0x202F), (0x205F, 0x205F), (0x3000, 0x3000)]

/-- Whether a character is white space. -/
def isWhiteSpace (char : Char) : Bool :=
  inRanges whiteSpaceRanges char.toNat

end DaxScript.Unicode
