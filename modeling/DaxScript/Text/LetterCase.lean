/-!
# Comparison without letter case

Keywords, format names, column types and attribute names are written in any letter case.  Only
the English letters have a case here; every other character equals itself alone.
-/

set_option autoImplicit false

namespace DaxScript

/-- Whether two texts are equal up to the case of English letters. -/
def sameIgnoringCase (first second : String) : Bool :=
  first.toList.map Char.toUpper == second.toList.map Char.toUpper

theorem sameIgnoringCase_iff {first second : String} :
    sameIgnoringCase first second = true ↔
      first.toList.map Char.toUpper = second.toList.map Char.toUpper := by
  simp [sameIgnoringCase]

end DaxScript
