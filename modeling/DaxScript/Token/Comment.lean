/-!
# Where comments begin

Two hyphens and two slashes begin a comment.  How far it reaches is decided by those who cut the
source.
-/

set_option autoImplicit false

namespace DaxScript

/-- Whether two characters open a comment. -/
def opensComment (first second : Char) : Bool :=
  (first == '-' || first == '/') && second == first

/-- Both characters of an opening are the same. -/
theorem eq_of_opensComment {first second : Char} (opens : opensComment first second = true) :
    second = first := by
  simp only [opensComment, Bool.and_eq_true, beq_iff_eq] at opens
  exact opens.2

end DaxScript
