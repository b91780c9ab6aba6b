/-!
# Powers of ten

Decimal numbers are scaled by powers of ten, both when they are read and when they are written.
-/

set_option autoImplicit false

namespace DaxScript

/-- Ten to a power. -/
def powerOfTen (exponent : Nat) : Nat :=
  Nat.pow 10 exponent

@[simp] theorem powerOfTen_zero : powerOfTen 0 = 1 := rfl

theorem powerOfTen_succ (exponent : Nat) :
    powerOfTen (exponent + 1) = powerOfTen exponent * 10 := rfl

theorem powerOfTen_pos (exponent : Nat) : 0 < powerOfTen exponent := by
  induction exponent with
  | zero => exact Nat.one_pos
  | succ exponent ih =>
    rw [powerOfTen_succ]
    exact Nat.mul_pos ih (by decide)

end DaxScript
