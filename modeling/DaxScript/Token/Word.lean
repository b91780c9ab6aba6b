import DaxScript.Unicode.Alphabetic
import DaxScript.Unicode.Numeric

/-!
# Words

Names and keywords are words: a letter of any script or an underscore, then letters, numbers,
underscores and points.  The point joins the parts of dotted function names.
-/

set_option autoImplicit false

namespace DaxScript

/-- Whether a character can begin a word. -/
def isWordStart (char : Char) : Bool :=
  Unicode.isAlphabetic char || char == '_'

/-- Whether a character can go on with a word. -/
def isWordPart (char : Char) : Bool :=
  Unicode.isAlphabetic char || Unicode.isNumeric char || char == '_' || char == '.'

/-- What begins a word can also go on with one. -/
theorem isWordPart_of_isWordStart {char : Char} (starts : isWordStart char = true) :
    isWordPart char = true := by
  rcases (Bool.or_eq_true _ _).mp starts with letter | underscore
  · simp [isWordPart, letter]
  · simp [isWordPart, underscore]

/-- No digit begins a word. -/
theorem isWordStart_eq_false_of_isDigit {char : Char} (digit : char.isDigit = true) :
    isWordStart char = false := by
  have range : 48 ≤ char.toNat ∧ char.toNat ≤ 57 := Char.isDigit_iff_toNat.mp digit
  have ascii : char.toNat < 128 := by omega
  have letter : Unicode.isAlphabetic char = false := by
    simp [Unicode.isAlphabetic, ascii, Unicode.inRanges, Unicode.englishLetterRanges]
    omega
  have underscore : char ≠ '_' := by
    rintro rfl
    exact absurd digit (by decide)
  simp [isWordStart, letter, underscore]

end DaxScript
