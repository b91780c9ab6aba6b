/-!
# Sets of characters given by ranges

The Unicode properties that the language needs are tables of code point ranges.  This module
holds the one question asked of such a table.
-/

set_option autoImplicit false

namespace DaxScript.Unicode

/-- Whether a code point lies in one of the inclusive ranges. -/
def inRanges (ranges : List (Nat × Nat)) (code : Nat) : Bool :=
  ranges.any fun range => range.1 ≤ code && code ≤ range.2

/-- Membership in a table is membership in one of its ranges. -/
theorem inRanges_iff {ranges : List (Nat × Nat)} {code : Nat} :
    inRanges ranges code = true ↔ ∃ range ∈ ranges, range.1 ≤ code ∧ code ≤ range.2 := by
  simp [inRanges]

end DaxScript.Unicode
