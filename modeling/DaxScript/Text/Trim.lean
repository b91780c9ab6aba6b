import DaxScript.Unicode.WhiteSpace

/-!
# Trimming white space
-/

set_option autoImplicit false

namespace DaxScript

/-- The text without its leading white space. -/
def trimStart (text : List Char) : List Char :=
  text.dropWhile Unicode.isWhiteSpace

/-- The text without its trailing white space. -/
def trimEnd (text : List Char) : List Char :=
  (text.reverse.dropWhile Unicode.isWhiteSpace).reverse

/-- The text without white space at either end. -/
def trim (text : List Char) : List Char :=
  trimEnd (trimStart text)

end DaxScript
