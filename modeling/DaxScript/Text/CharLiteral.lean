import DaxScript.Unicode.GraphemeExtend
import DaxScript.Unicode.Invisible

/-!
# Showing one character

A message about a character shows it between single quotes.  What cannot be seen there is
written as an escape: the blanks that have a short one, and by its code whatever prints as
nothing or would attach itself to the opening quote.
-/

set_option autoImplicit false

namespace DaxScript.CharLiteral

/-- A character by its code, in lower-case hexadecimal digits. -/
def codeEscape (char : Char) : List Char :=
  '\\' :: 'u' :: '{' :: (Nat.toDigits 16 char.toNat ++ ['}'])

/-- A character as it is written between the quotes. -/
def body (char : Char) : List Char :=
  if char = '\x00' then ['\\', '0']
  else if char = '\t' then ['\\', 't']
  else if char = '\r' then ['\\', 'r']
  else if char = '\n' then ['\\', 'n']
  else if char = '\'' ∨ char = '\\' then ['\\', char]
  else if Unicode.isGraphemeExtend char || Unicode.isInvisible char then codeEscape char
  else [char]

/-- A character between single quotes. -/
def render (char : Char) : String :=
  String.ofList ('\'' :: (body char ++ ['\'']))

end DaxScript.CharLiteral
