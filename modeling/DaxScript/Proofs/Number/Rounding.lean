import Mathlib
import DaxScript.Number.Numeral

/-!
# Which numerals are read as a whole number

A numeral is read as the nearest binary64 number.  So it is read as a whole number if it lies within
half the distance to the next binary64 number on its side, and the halves themselves are included,
since the significand of a whole number below `2 ^ 52` is even (`toNat?_ofRatio_iff`).  Below a
power of two the next number is only half as far away as above it.

In particular whole numbers are read as what they are (`Reaches.whole`), and no number with up to
six decimals is read as a whole number of 32 bits that it is not (`Reaches.eq_of_millionths`).
-/

set_option autoImplicit false

namespace DaxScript.Binary64

/-! ## Rounding to whole numbers -/

/-- What is rounded is at most a half away. -/
theorem roundHalfEven_bounds (numerator : Nat) {denominator : Nat} (positive : 0 < denominator) :
    2 * (roundHalfEven numerator denominator * denominator) ≤ 2 * numerator + denominator ∧
      2 * numerator ≤ 2 * (roundHalfEven numerator denominator * denominator) + denominator := by
  have whole := Nat.div_add_mod numerator denominator
  rw [Nat.mul_comm] at whole
  have small := Nat.mod_lt numerator positive
  have up : (numerator / denominator + 1) * denominator =
      numerator / denominator * denominator + denominator := Nat.succ_mul _ _
  unfold roundHalfEven
  simp only
  split
  · omega
  split
  · rw [up]
    omega
  split
  · omega
  · rw [up]
    omega

/-- What is at most a half away from an even number is rounded to it. -/
theorem roundHalfEven_eq {numerator denominator even : Nat} (positive : 0 < denominator)
    (isEven : even % 2 = 0) (below : 2 * (even * denominator) ≤ 2 * numerator + denominator)
    (above : 2 * numerator ≤ 2 * (even * denominator) + denominator) :
    roundHalfEven numerator denominator = even := by
  have whole := Nat.div_add_mod numerator denominator
  rw [Nat.mul_comm] at whole
  have small := Nat.mod_lt numerator positive
  have up : (numerator / denominator + 1) * denominator =
      numerator / denominator * denominator + denominator := Nat.succ_mul _ _
  -- The quotient is the even number, or the one before it.
  have notLess : even ≤ numerator / denominator + 1 := by
    by_contra less
    have := Nat.mul_le_mul_right denominator (Nat.lt_of_not_le less)
    rw [Nat.succ_mul, up] at this
    omega
  have notGreater : numerator / denominator ≤ even := by
    by_contra greater
    have := Nat.mul_le_mul_right denominator (Nat.lt_of_not_le greater)
    rw [Nat.succ_mul] at this
    omega
  rcases Nat.lt_or_eq_of_le notGreater with before | same
  · obtain rfl : even = numerator / denominator + 1 := by omega
    rw [up] at below
    unfold roundHalfEven
    simp only
    split
    · omega
    split
    · rfl
    · rw [if_neg (by omega)]
  · subst same
    unfold roundHalfEven
    simp only [isEven, if_true]
    split
    · rfl
    split
    · omega
    · rfl

/-! ## The binary64 numbers around a whole number -/

/-- Half the distance from a whole number to the next greater binary64 number. -/
def reachAbove (whole : Nat) : ℚ :=
  if whole = 0 then 1 / 2 ^ 1075 else 2 ^ whole.log2 / 2 ^ 53

/-- Half the distance from a whole number to the next smaller binary64 number, which is nearer where
a power of two is reached.  Below zero there is none. -/
def reachBelow (whole : Nat) : ℚ :=
  if whole = 2 ^ whole.log2 then reachAbove whole / 2 else reachAbove whole

/-- Whether a rational is read as a whole number. -/
structure Reaches (exact : ℚ) (whole : Nat) : Prop where
  below : whole - reachBelow whole ≤ exact
  above : exact ≤ whole + reachAbove whole

theorem toNat?_finite_iff {significand exponent whole : Nat} :
    (finite significand exponent).toNat? = some whole ↔
      significand * 2 ^ exponent = whole * 2 ^ 1074 := by
  obtain ⟨scale, isScale⟩ : ∃ scale, scale = 1074 := ⟨_, rfl⟩
  have positive : 0 < 2 ^ scale := Nat.two_pow_pos scale
  simp only [toNat?, ← isScale, Nat.shiftLeft_eq, Nat.one_mul, Nat.shiftRight_eq_div_pow]
  constructor
  · intro found
    split at found
    · next divides =>
      cases found
      exact (Nat.div_mul_cancel (Nat.dvd_of_mod_eq_zero divides)).symm
    · cases found
  · intro same
    rw [same, if_pos (Nat.mul_mod_left _ _), Nat.mul_div_cancel _ positive]

/-- A number is a whole number. -/
inductive IsWhole : Binary64 → Nat → Prop where
  | finite {significand exponent whole : Nat}
      (same : significand * 2 ^ exponent = whole * 2 ^ 1074) :
      IsWhole (finite significand exponent) whole

theorem toNat?_eq_some_iff {value : Binary64} {whole : Nat} :
    value.toNat? = some whole ↔ value.IsWhole whole := by
  cases value with
  | finite =>
    rw [toNat?_finite_iff]
    constructor
    · exact .finite
    · rintro ⟨same⟩
      exact same
  | infinite => exact ⟨nofun, nofun⟩

theorem IsWhole.unique {value : Binary64} {first second : Nat} (isFirst : value.IsWhole first)
    (isSecond : value.IsWhole second) : first = second :=
  Option.some.inj ((toNat?_eq_some_iff.mpr isFirst).symm.trans (toNat?_eq_some_iff.mpr isSecond))

/-- A significand of at most 53 bits, or the first one of 54, keeps its value. -/
theorem normalize_cases {significand : Nat} (bits : significand ≤ 2 * leadingBit)
    (exponent : Nat) :
    normalize significand exponent = infinite ∨
      ∃ same exponent', normalize significand exponent = finite same exponent' ∧
        same * 2 ^ exponent' = significand * 2 ^ exponent := by
  unfold normalize
  split
  · split
    · exact .inr ⟨_, _, rfl, rfl⟩
    · exact .inl rfl
  · next notLess =>
    obtain rfl : significand = 2 * leadingBit := Nat.le_antisymm bits (Nat.not_lt.mp notLess)
    split
    · refine .inr ⟨_, _, rfl, ?_⟩
      rw [Nat.pow_succ]
      ring
    · exact .inl rfl

theorem normalize_ne_infinite {significand exponent : Nat} (small : exponent ≤ 2044) :
    normalize significand exponent ≠ infinite := by
  unfold normalize
  split
  · rw [if_pos (by omega)]
    exact Binary64.noConfusion
  · rw [if_pos (by omega)]
    exact Binary64.noConfusion

/-! ## The exponent of a quotient -/

section Quotient

variable {units denominator : Nat} (positive : 0 < denominator)
include positive

/-- The exponent that is chosen leaves at most 53 bits, and as many unless it is zero. -/
theorem exponent_bounds :
    let exponent := (units / denominator).log2 - 52
    units < denominator * 2 ^ (exponent + 53) ∧
      (exponent = 0 ∨ denominator * 2 ^ (exponent + 52) ≤ units) := by
  intro exponent
  have upper : units / denominator < 2 ^ (exponent + 53) :=
    Nat.lt_log2_self.trans_le (Nat.pow_le_pow_right (by decide) (by omega))
  rw [Nat.div_lt_iff_lt_mul positive, Nat.mul_comm] at upper
  refine ⟨upper, ?_⟩
  by_cases none : exponent = 0
  · exact .inl none
  · have some : units / denominator ≠ 0 := by
      intro nothing
      simp [exponent, nothing] at none
    have lower : 2 ^ (exponent + 52) ≤ units / denominator :=
      (Nat.pow_le_pow_right (by decide) (by omega)).trans (Nat.log2_self_le some)
    rw [Nat.le_div_iff_mul_le positive, Nat.mul_comm] at lower
    exact .inr lower

/-- No other exponent leaves 53 bits. -/
theorem exponent_eq {exponent : Nat} (lower : denominator * 2 ^ (exponent + 52) ≤ units)
    (upper : units < denominator * 2 ^ (exponent + 53)) :
    (units / denominator).log2 - 52 = exponent := by
  rw [Nat.mul_comm, ← Nat.le_div_iff_mul_le positive] at lower
  rw [Nat.mul_comm, ← Nat.div_lt_iff_lt_mul positive] at upper
  have some : units / denominator ≠ 0 := Nat.ne_of_gt ((Nat.two_pow_pos _).trans_le lower)
  have same : (units / denominator).log2 = exponent + 52 :=
    (Nat.log2_eq_iff some).mpr ⟨lower, upper⟩
  omega

/-- The significand that is left has at most 53 bits, unless it is the first one of 54. -/
theorem significand_le {exponent : Nat} (upper : units < denominator * 2 ^ (exponent + 53)) :
    roundHalfEven units (denominator * 2 ^ exponent) ≤ 2 * leadingBit := by
  have some : 0 < denominator * 2 ^ exponent := Nat.mul_pos positive (Nat.two_pow_pos _)
  have near := (roundHalfEven_bounds units some).1
  have same : denominator * 2 ^ (exponent + 53) =
      2 * leadingBit * (denominator * 2 ^ exponent) := by
    have bits : 2 * leadingBit = 2 ^ 53 := rfl
    rw [Nat.pow_add, bits]
    ring
  rw [same] at upper
  generalize denominator * 2 ^ exponent = step at upper near some
  by_contra greater
  have := Nat.mul_le_mul_right step (Nat.lt_of_not_le greater)
  rw [Nat.succ_mul] at this
  omega

end Quotient

/-- A number that is read as a whole number was rounded to it. -/
theorem exists_rounding {numerator denominator whole : Nat} (positive : 0 < denominator)
    (read : (ofRatio numerator denominator).toNat? = some whole) :
    ∃ exponent significand, significand * 2 ^ exponent = whole * 2 ^ 1074 ∧
      (exponent = 0 ∨ denominator * 2 ^ (exponent + 52) ≤ numerator * 2 ^ 1074) ∧
      2 * (significand * (denominator * 2 ^ exponent)) ≤
        2 * (numerator * 2 ^ 1074) + denominator * 2 ^ exponent ∧
      2 * (numerator * 2 ^ 1074) ≤
        2 * (significand * (denominator * 2 ^ exponent)) + denominator * 2 ^ exponent := by
  obtain ⟨scale, isScale⟩ : ∃ scale, scale = 1074 := ⟨_, rfl⟩
  simp only [ofRatio, ← isScale, Nat.shiftLeft_eq] at read ⊢
  obtain ⟨upper, lower⟩ := @exponent_bounds (numerator * 2 ^ scale) _ positive
  have bits := significand_le positive upper
  rcases normalize_cases bits _ with isInfinite | ⟨same, exponent, isFinite, value⟩
  · rw [isInfinite] at read
    cases read
  · rw [isFinite, toNat?_finite_iff, value, ← isScale] at read
    have some : 0 < denominator * 2 ^ ((numerator * 2 ^ scale / denominator).log2 - 52) :=
      Nat.mul_pos positive (Nat.two_pow_pos _)
    exact ⟨_, _, read, lower, roundHalfEven_bounds _ some⟩

/-- A number that is rounded to a whole number is read as it. -/
theorem toNat?_ofRatio_of_rounding {numerator denominator exponent even whole : Nat}
    (positive : 0 < denominator) (small : exponent ≤ 2044)
    (chosen : (numerator * 2 ^ 1074 / denominator).log2 - 52 = exponent)
    (isEven : even % 2 = 0) (same : even * 2 ^ exponent = whole * 2 ^ 1074)
    (below : 2 * (even * (denominator * 2 ^ exponent)) ≤
      2 * (numerator * 2 ^ 1074) + denominator * 2 ^ exponent)
    (above : 2 * (numerator * 2 ^ 1074) ≤
      2 * (even * (denominator * 2 ^ exponent)) + denominator * 2 ^ exponent) :
    (ofRatio numerator denominator).toNat? = some whole := by
  obtain ⟨scale, isScale⟩ : ∃ scale, scale = 1074 := ⟨_, rfl⟩
  simp only [← isScale] at chosen same below above
  have some : 0 < denominator * 2 ^ exponent := Nat.mul_pos positive (Nat.two_pow_pos _)
  obtain ⟨upper, _⟩ := @exponent_bounds (numerator * 2 ^ scale) _ positive
  rw [chosen] at upper
  have bits := significand_le positive upper
  have rounded := roundHalfEven_eq some isEven below above
  simp only [ofRatio, ← isScale, Nat.shiftLeft_eq, chosen]
  rw [rounded] at bits ⊢
  rcases normalize_cases bits exponent with isInfinite | ⟨_, _, isFinite, value⟩
  · exact absurd isInfinite (normalize_ne_infinite small)
  · rw [isFinite, toNat?_finite_iff, value, ← isScale, same]

/-! ## Which quotients are read as a whole number -/

section Fractions

variable {numerator denominator whole step parts : Nat} (positive : 0 < denominator)
  (some : 0 < parts)
include positive some

/-- Fractions compared as whole numbers. -/
theorem sub_le_quotient_iff :
    (whole : ℚ) - step / parts ≤ numerator / denominator ↔
      whole * denominator * parts ≤ numerator * parts + step * denominator := by
  have isDenominator : (0 : ℚ) < denominator := by exact_mod_cast positive
  have isParts : (0 : ℚ) < parts := by exact_mod_cast some
  rw [sub_le_iff_le_add, div_add_div _ _ isDenominator.ne' isParts.ne',
    le_div_iff₀ (mul_pos isDenominator isParts), ← mul_assoc, mul_comm (denominator : ℚ) step]
  norm_cast

theorem quotient_le_add_iff :
    (numerator : ℚ) / denominator ≤ whole + step / parts ↔
      numerator * parts ≤ whole * denominator * parts + step * denominator := by
  have isDenominator : (0 : ℚ) < denominator := by exact_mod_cast positive
  have isParts : (0 : ℚ) < parts := by exact_mod_cast some
  rw [div_le_iff₀ isDenominator, ← mul_le_mul_iff_left₀ isParts, add_mul, add_mul,
    div_mul_eq_mul_div, div_mul_cancel₀ _ isParts.ne']
  norm_cast

end Fractions

/-- What is read as zero, in whole numbers. -/
theorem reaches_zero_iff {numerator denominator : Nat} (positive : 0 < denominator) :
    Reaches (numerator / denominator) 0 ↔ numerator * 2 ^ 1075 ≤ denominator := by
  obtain ⟨scale, isScale⟩ : ∃ scale, scale = 1075 := ⟨_, rfl⟩
  rw [← isScale]
  have some : 0 < 2 ^ scale := Nat.two_pow_pos scale
  have compared := @quotient_le_add_iff numerator denominator 0 1 (2 ^ scale) positive some
  have reach : reachAbove 0 = ((1 : Nat) : ℚ) / ((2 ^ scale : Nat) : ℚ) := by
    rw [reachAbove, if_pos rfl, ← isScale, Nat.cast_one, Nat.cast_pow, Nat.cast_ofNat]
  rw [← reach, Nat.zero_mul, Nat.zero_mul, Nat.zero_add, Nat.one_mul] at compared
  refine ⟨fun reaches => compared.mp reaches.above, fun near => ⟨?_, compared.mpr near⟩⟩
  have nonneg : (0 : ℚ) ≤ numerator / denominator := by positivity
  have nothing : (0 : ℚ) ≤ reachBelow 0 := by
    rw [reachBelow, if_neg (by decide), reach]
    positivity
  rw [Nat.cast_zero, zero_sub]
  linarith

/-- What is read as a positive whole number, in whole numbers. -/
theorem reaches_iff {numerator denominator whole : Nat} (positive : 0 < denominator)
    (nonzero : whole ≠ 0) :
    Reaches (numerator / denominator) whole ↔
      (if whole = 2 ^ whole.log2 then
        whole * denominator * 2 ^ 54 ≤ numerator * 2 ^ 54 + 2 ^ whole.log2 * denominator
      else whole * denominator * 2 ^ 53 ≤ numerator * 2 ^ 53 + 2 ^ whole.log2 * denominator) ∧
      numerator * 2 ^ 53 ≤ whole * denominator * 2 ^ 53 + 2 ^ whole.log2 * denominator := by
  have reach : reachAbove whole = ((2 ^ whole.log2 : Nat) : ℚ) / ((2 ^ 53 : Nat) : ℚ) := by
    rw [reachAbove, if_neg nonzero]
    norm_cast
  have above := @quotient_le_add_iff numerator _ whole (2 ^ whole.log2) _ positive
    (Nat.two_pow_pos 53)
  rw [← reach] at above
  have below : whole - reachBelow whole ≤ (numerator : ℚ) / denominator ↔
      if whole = 2 ^ whole.log2 then
        whole * denominator * 2 ^ 54 ≤ numerator * 2 ^ 54 + 2 ^ whole.log2 * denominator
      else whole * denominator * 2 ^ 53 ≤ numerator * 2 ^ 53 + 2 ^ whole.log2 * denominator := by
    unfold reachBelow
    split
    · rw [← sub_le_quotient_iff positive (Nat.two_pow_pos 54), reach, div_div]
      norm_num
    · rw [← sub_le_quotient_iff positive (Nat.two_pow_pos 53), reach]
  exact ⟨fun reaches => ⟨below.mp reaches.below, above.mp reaches.above⟩,
    fun near => ⟨below.mpr near.1, above.mpr near.2⟩⟩

theorem step_le {denominator exponent units bits : Nat} (coarse : exponent ≤ units + bits) :
    denominator * 2 ^ exponent ≤ 2 ^ units * (2 ^ bits * denominator) := by
  calc denominator * 2 ^ exponent ≤ denominator * 2 ^ (units + bits) :=
        Nat.mul_le_mul_left _ (Nat.pow_le_pow_right (by decide) coarse)
    _ = 2 ^ units * (2 ^ bits * denominator) := by ring

/-- An exponent is chosen only for quotients from its power of two on. -/
theorem le_of_filled {numerator denominator bits base : Nat}
    (filled : denominator * 2 ^ (bits + base + 1 + 52) ≤ numerator * 2 ^ (base + 53)) :
    denominator * 2 ^ bits ≤ numerator := by
  refine Nat.le_of_mul_le_mul_right (?_ : _ * 2 ^ (base + 53) ≤ _) (Nat.two_pow_pos _)
  calc denominator * 2 ^ bits * 2 ^ (base + 53)
      = denominator * 2 ^ (bits + base + 1 + 52) := by ring
    _ ≤ numerator * 2 ^ (base + 53) := filled

section Reading

variable {numerator denominator whole : Nat} (positive : 0 < denominator)
include positive

/-- The exponent of a quotient between a power of two and the next one. -/
theorem exponent_of_binade {bits base : Nat} (enough : denominator * 2 ^ bits ≤ numerator)
    (less : numerator < denominator * (2 * 2 ^ bits)) :
    (numerator * 2 ^ (base + 53) / denominator).log2 - 52 = bits + base + 1 := by
  refine exponent_eq positive ?_ ?_
  · have := Nat.mul_le_mul_right (2 ^ (base + 53)) enough
    calc denominator * 2 ^ (bits + base + 1 + 52)
        = denominator * 2 ^ bits * 2 ^ (base + 53) := by ring
      _ ≤ numerator * 2 ^ (base + 53) := this
  · have := Nat.mul_lt_mul_of_pos_right less (Nat.two_pow_pos (base + 53))
    calc numerator * 2 ^ (base + 53)
        < denominator * (2 * 2 ^ bits) * 2 ^ (base + 53) := this
      _ = denominator * 2 ^ (bits + base + 1 + 53) := by ring

/-- What is at most half a step above a whole number is below the next power of two. -/
theorem lt_of_near (nonzero : whole ≠ 0) (small : whole < 2 ^ 52)
    (above : numerator * 2 ^ 53 ≤ whole * denominator * 2 ^ 53 + 2 ^ whole.log2 * denominator) :
    numerator < denominator * (2 * 2 ^ whole.log2) := by
  have bits : whole.log2 < 52 := (Nat.log2_lt nonzero).mpr small
  have under : whole + 1 ≤ 2 * 2 ^ whole.log2 := by
    rw [Nat.mul_comm, ← Nat.pow_succ]
    exact Nat.lt_log2_self
  have wide : whole * 2 ^ 53 + 2 ^ whole.log2 + 1 ≤ 2 * 2 ^ whole.log2 * 2 ^ 53 := by
    have : 2 ^ whole.log2 ≤ 2 ^ 51 := Nat.pow_le_pow_right (by decide) (by omega)
    linarith
  have := Nat.mul_le_mul_right denominator wide
  linarith

/-- From a whole number on, and a little below it, the significand of the whole number is chosen. -/
theorem toNat?_ofRatio_of_le (nonzero : whole ≠ 0) (small : whole < 2 ^ 52)
    (enough : denominator * 2 ^ whole.log2 ≤ numerator)
    (below : whole * denominator * 2 ^ 53 ≤ numerator * 2 ^ 53 + 2 ^ whole.log2 * denominator)
    (above : numerator * 2 ^ 53 ≤ whole * denominator * 2 ^ 53 + 2 ^ whole.log2 * denominator) :
    (ofRatio numerator denominator).toNat? = some whole := by
  obtain ⟨base, isBase⟩ : ∃ base, base = 1021 := ⟨_, rfl⟩
  have scale : 1074 = base + 53 := by omega
  have bits : whole.log2 < 52 := (Nat.log2_lt nonzero).mpr small
  obtain ⟨free, isFree⟩ : ∃ free, 52 = whole.log2 + (free + 1) := ⟨51 - whole.log2, by omega⟩
  have filled : 2 ^ (free + 1) * 2 ^ whole.log2 = 2 ^ 52 := by
    rw [← Nat.pow_add, isFree, Nat.add_comm]
  have scaled : whole * 2 ^ (free + 1) * 2 ^ (whole.log2 + base + 1) =
      whole * 2 ^ (base + 53) := by
    calc whole * 2 ^ (free + 1) * 2 ^ (whole.log2 + base + 1)
        = whole * (2 ^ (free + 1) * 2 ^ whole.log2) * 2 ^ (base + 1) := by ring
      _ = whole * 2 ^ (base + 53) := by rw [filled]; ring
  have step : denominator * 2 ^ (whole.log2 + base + 1) =
      2 ^ whole.log2 * denominator * 2 ^ (base + 1) := by ring
  have value : whole * 2 ^ (free + 1) * (denominator * 2 ^ (whole.log2 + base + 1)) =
      whole * denominator * 2 ^ (base + 53) := by
    rw [Nat.mul_left_comm, scaled]
    ring
  refine @toNat?_ofRatio_of_rounding _ _ (whole.log2 + base + 1) (whole * 2 ^ (free + 1)) _ positive
    (by omega) ?_ ?_ ?_ ?_ ?_
  · rw [scale]
    exact exponent_of_binade positive enough (lt_of_near positive nonzero small above)
  · rw [Nat.pow_succ, ← Nat.mul_assoc]
    exact Nat.mul_mod_left _ _
  · rw [scale, scaled]
  · rw [scale, value, step]
    have := Nat.mul_le_mul_right (2 ^ (base + 1)) below
    calc 2 * (whole * denominator * 2 ^ (base + 53))
        = whole * denominator * 2 ^ 53 * 2 ^ (base + 1) := by ring
      _ ≤ (numerator * 2 ^ 53 + 2 ^ whole.log2 * denominator) * 2 ^ (base + 1) := this
      _ = 2 * (numerator * 2 ^ (base + 53)) + 2 ^ whole.log2 * denominator * 2 ^ (base + 1) := by
        ring
  · rw [scale, value, step]
    have := Nat.mul_le_mul_right (2 ^ (base + 1)) above
    calc 2 * (numerator * 2 ^ (base + 53)) = numerator * 2 ^ 53 * 2 ^ (base + 1) := by ring
      _ ≤ (whole * denominator * 2 ^ 53 + 2 ^ whole.log2 * denominator) * 2 ^ (base + 1) := this
      _ = 2 * (whole * denominator * 2 ^ (base + 53)) +
          2 ^ whole.log2 * denominator * 2 ^ (base + 1) := by ring

/-- Just below a power of two the significand is a power of two itself. -/
theorem toNat?_ofRatio_of_lt {power : Nat} (small : power < 52)
    (less : numerator < denominator * 2 ^ power)
    (below : 2 ^ power * denominator * 2 ^ 54 ≤ numerator * 2 ^ 54 + 2 ^ power * denominator) :
    (ofRatio numerator denominator).toNat? = some (2 ^ power) := by
  obtain ⟨base, isBase⟩ : ∃ base, base = 1021 := ⟨_, rfl⟩
  have scale : 1074 = base + 53 := by omega
  have value : 2 ^ 53 * (denominator * 2 ^ (power + base)) =
      denominator * 2 ^ power * 2 ^ (base + 53) := by ring
  have lessUnits := Nat.mul_lt_mul_of_pos_right less (Nat.two_pow_pos (base + 53))
  refine @toNat?_ofRatio_of_rounding _ _ (power + base) (2 ^ 53) _ positive
    (by omega) ?_ (by decide) ?_ ?_ ?_
  · rw [scale]
    refine exponent_eq positive ?_ ?_
    · have half : denominator * 2 ^ power ≤ 2 * numerator := by linarith
      have := Nat.mul_le_mul_right (2 ^ (base + 52)) half
      calc denominator * 2 ^ (power + base + 52)
          = denominator * 2 ^ power * 2 ^ (base + 52) := by ring
        _ ≤ 2 * numerator * 2 ^ (base + 52) := this
        _ = numerator * 2 ^ (base + 53) := by ring
    · calc numerator * 2 ^ (base + 53)
          < denominator * 2 ^ power * 2 ^ (base + 53) := lessUnits
        _ = denominator * 2 ^ (power + base + 53) := by ring
  · rw [scale]
    ring
  · rw [scale, value]
    have := Nat.mul_le_mul_right (2 ^ base) below
    calc 2 * (denominator * 2 ^ power * 2 ^ (base + 53))
        = 2 ^ power * denominator * 2 ^ 54 * 2 ^ base := by ring
      _ ≤ (numerator * 2 ^ 54 + 2 ^ power * denominator) * 2 ^ base := this
      _ = 2 * (numerator * 2 ^ (base + 53)) + denominator * 2 ^ (power + base) := by ring
  · rw [scale, value]
    omega

/-- **A number is read as zero if it is at most half of the least positive one.** -/
theorem toNat?_ofRatio_zero_iff :
    (ofRatio numerator denominator).toNat? = some 0 ↔ Reaches (numerator / denominator) 0 := by
  obtain ⟨scale, isScale⟩ : ∃ scale, scale = 1074 := ⟨_, rfl⟩
  have next : 1075 = scale + 1 := by omega
  rw [reaches_zero_iff positive, next, Nat.pow_succ,
    ← Nat.mul_assoc]
  have some : 0 < 2 ^ scale := Nat.two_pow_pos scale
  constructor
  · intro read
    obtain ⟨exponent, significand, value, lower, -, above⟩ := exists_rounding positive read
    rw [← isScale] at value lower above
    rw [Nat.zero_mul] at value
    have nothing : significand * (denominator * 2 ^ exponent) = 0 := by
      rw [Nat.mul_left_comm, value, Nat.mul_zero]
    rcases lower with rfl | lower
    · omega
    · have step := Nat.mul_pos positive (Nat.two_pow_pos exponent)
      rw [Nat.pow_add, ← Nat.mul_assoc] at lower
      omega
  · intro near
    have nothing : numerator * 2 ^ scale / denominator = 0 := Nat.div_eq_of_lt (by omega)
    refine @toNat?_ofRatio_of_rounding _ _ 0 0 _ positive (by decide) ?_ (by decide) ?_ ?_ ?_
    · rw [← isScale, nothing]
      decide
    all_goals rw [← isScale]; omega

/-- What is read as a positive number is chosen no coarser than the number is. -/
theorem exponent_le {exponent significand : Nat} (nonzero : whole ≠ 0) (small : whole < 2 ^ 52)
    (value : significand * 2 ^ exponent = whole * 2 ^ 1074)
    (lower : exponent = 0 ∨ denominator * 2 ^ (exponent + 52) ≤ numerator * 2 ^ 1074)
    (above : 2 * (numerator * 2 ^ 1074) ≤
      2 * (significand * (denominator * 2 ^ exponent)) + denominator * 2 ^ exponent) :
    exponent ≤ whole.log2 + 1022 := by
  obtain ⟨base, isBase⟩ : ∃ base, base = 1021 := ⟨_, rfl⟩
  have scale : 1074 = base + 53 := by omega
  rw [scale] at value lower above
  by_contra greater
  have bits : whole.log2 < 52 := (Nat.log2_lt nonzero).mpr small
  have top : 2 ^ whole.log2 ≤ 2 ^ 51 := Nat.pow_le_pow_right (by decide) (by omega)
  have under : whole + 1 ≤ 2 * 2 ^ whole.log2 := by
    rw [Nat.mul_comm, ← Nat.pow_succ]
    exact Nat.lt_log2_self
  have coarse : 2 ^ whole.log2 * 2 ^ (base + 2) ≤ 2 ^ exponent := by
    rw [← Nat.pow_add]
    exact Nat.pow_le_pow_right (by decide) (by omega)
  have filled := lower.resolve_left (by omega)
  -- So coarse a number is at least twice the whole number.
  have most : denominator * (2 ^ 53 * 2 ^ exponent) ≤
      denominator * (whole * 2 ^ 54 * 2 ^ base + 2 ^ exponent) := by
    calc denominator * (2 ^ 53 * 2 ^ exponent) = 2 * (denominator * 2 ^ (exponent + 52)) := by ring
      _ ≤ 2 * (numerator * 2 ^ (base + 53)) := Nat.mul_le_mul_left 2 filled
      _ ≤ 2 * (denominator * (significand * 2 ^ exponent)) + denominator * 2 ^ exponent := by
        rw [Nat.mul_left_comm denominator]
        exact above
      _ = denominator * (whole * 2 ^ 54 * 2 ^ base + 2 ^ exponent) := by
        rw [value]
        ring
  have short : 2 ^ (base + 2) * (2 ^ 53 * 2 ^ whole.log2) ≤
      2 ^ (base + 2) * (whole * 2 ^ 52 + 2 ^ whole.log2) := by
    have := Nat.le_of_mul_le_mul_left most positive
    rw [Nat.pow_add] at coarse ⊢
    linarith
  have := Nat.le_of_mul_le_mul_left short (Nat.two_pow_pos _)
  linarith

/-- What is read as a positive whole number is within the reach of it. -/
theorem reaches_of_toNat? (nonzero : whole ≠ 0) (small : whole < 2 ^ 52)
    (read : (ofRatio numerator denominator).toNat? = some whole) :
    Reaches (numerator / denominator) whole := by
  obtain ⟨base, isBase⟩ : ∃ base, base = 1021 := ⟨_, rfl⟩
  have scale : 1074 = base + 53 := by omega
  obtain ⟨exponent, significand, value, lower, below, above⟩ := exists_rounding positive read
  have coarse := exponent_le positive nonzero small value lower above
  have same : significand * (denominator * 2 ^ exponent) =
      whole * denominator * 2 ^ (base + 53) := by
    rw [Nat.mul_left_comm, value, scale]
    ring
  rw [scale] at lower below above
  rw [same] at below above
  have step := @step_le denominator exponent (base + 1) whole.log2 (by omega)
  rw [Nat.pow_succ] at step
  rw [Nat.pow_add 2 base] at below above
  have unit : 0 < 2 * 2 ^ base := Nat.mul_pos (by decide) (Nat.two_pow_pos base)
  refine (reaches_iff positive nonzero).mpr ⟨?_, Nat.le_of_mul_le_mul_left (by linarith) unit⟩
  split
  · next isPower =>
    rcases Nat.lt_or_eq_of_le coarse with finer | atEnd
    · have half := @step_le denominator exponent base whole.log2 (by omega)
      exact Nat.le_of_mul_le_mul_left (by linarith) unit
    · -- At the power of two itself the coarser step is chosen only for what is not less.
      have filled := lower.resolve_left (by omega)
      rw [atEnd, show whole.log2 + 1022 = whole.log2 + base + 1 by omega] at filled
      have enough := le_of_filled filled
      rw [← isPower] at enough
      exact Nat.le_add_right_of_le (by linarith)
  · exact Nat.le_of_mul_le_mul_left (by linarith) unit

/-- **A number is read as a whole number of at most 52 bits if it is within the reach of it.** -/
theorem toNat?_ofRatio_iff (small : whole < 2 ^ 52) :
    (ofRatio numerator denominator).toNat? = some whole ↔
      Reaches (numerator / denominator) whole := by
  rcases Nat.eq_zero_or_pos whole with rfl | some
  · exact toNat?_ofRatio_zero_iff positive
  have nonzero := Nat.ne_of_gt some
  refine ⟨reaches_of_toNat? positive nonzero small, fun reaches => ?_⟩
  obtain ⟨below, above⟩ := (reaches_iff positive nonzero).mp reaches
  have bits : whole.log2 < 52 := (Nat.log2_lt nonzero).mpr small
  rcases Nat.lt_or_ge numerator (denominator * 2 ^ whole.log2) with less | enough
  · -- Less than a power of two is within the reach of it only.
    have isPower : whole = 2 ^ whole.log2 := by
      by_contra noPower
      rw [if_neg noPower] at below
      have next := Nat.mul_le_mul_right denominator
        (Nat.lt_of_le_of_ne (Nat.log2_self_le nonzero) (Ne.symm noPower))
      have top := Nat.mul_le_mul_right denominator
        (Nat.pow_le_pow_right (show 0 < 2 by decide) bits.le)
      rw [Nat.succ_mul] at next
      linarith
    rw [if_pos isPower] at below
    have read := toNat?_ofRatio_of_lt positive bits less (isPower ▸ below)
    rwa [← isPower] at read
  · refine toNat?_ofRatio_of_le positive nonzero small enough ?_ above
    split at below
    · linarith
    · exact below

end Reading

/-! ## Exact values -/

theorem reachAbove_nonneg (whole : Nat) : 0 ≤ reachAbove whole := by
  unfold reachAbove
  split <;> positivity

theorem reachBelow_nonneg (whole : Nat) : 0 ≤ reachBelow whole := by
  unfold reachBelow
  split
  · exact div_nonneg (reachAbove_nonneg whole) zero_le_two
  · exact reachAbove_nonneg whole

theorem reachBelow_le (whole : Nat) : reachBelow whole ≤ reachAbove whole := by
  unfold reachBelow
  split
  · exact half_le_self (reachAbove_nonneg whole)
  · exact le_rfl

/-- A whole number of 32 bits reaches less than a millionth far. -/
theorem reachAbove_lt {whole : Nat} (small : whole < 2 ^ 32) : reachAbove whole < 1 / 10 ^ 6 := by
  unfold reachAbove
  split
  · obtain ⟨scale, isScale⟩ : ∃ scale, scale = 1055 := ⟨_, rfl⟩
    rw [show 1075 = 20 + scale by omega, pow_add, ← div_div]
    have scaled : (1 : ℚ) / 2 ^ 20 / 2 ^ scale ≤ 1 / 2 ^ 20 :=
      div_le_self (by positivity) (one_le_pow₀ one_le_two)
    exact scaled.trans_lt (by norm_num)
  · next nonzero =>
    have bits : whole.log2 < 32 := (Nat.log2_lt nonzero).mpr small
    have top : (2 : ℚ) ^ whole.log2 ≤ 2 ^ 31 := pow_le_pow_right₀ one_le_two (by omega)
    calc (2 : ℚ) ^ whole.log2 / 2 ^ 53 ≤ 2 ^ 31 / 2 ^ 53 := by gcongr
      _ < 1 / 10 ^ 6 := by norm_num

/-- **A whole number is read as what it is.** -/
theorem Reaches.whole (whole : Nat) : Reaches whole whole where
  below := sub_le_self _ (reachBelow_nonneg whole)
  above := le_add_of_nonneg_right (reachAbove_nonneg whole)

/-- **A number of millionths that is read as a whole number of 32 bits is that number.** -/
theorem Reaches.eq_of_millionths {millionths whole : Nat}
    (reaches : Reaches (millionths / 10 ^ 6) whole) (small : whole < 2 ^ 32) :
    (millionths : ℚ) / 10 ^ 6 = whole := by
  have short := reachAbove_lt small
  have above := reaches.above
  have below := reaches.below
  have shorter := reachBelow_le whole
  have notMore : (millionths : ℚ) < whole * 10 ^ 6 + 1 := by linarith
  have notLess : (whole : ℚ) * 10 ^ 6 < millionths + 1 := by linarith
  have same : millionths = whole * 10 ^ 6 :=
    Nat.le_antisymm (Nat.lt_succ_iff.mp (by exact_mod_cast notMore))
      (Nat.lt_succ_iff.mp (by exact_mod_cast notLess))
  rw [same, Nat.cast_mul, Nat.cast_pow, Nat.cast_ofNat, mul_div_cancel_right₀ _ (by norm_num)]

end DaxScript.Binary64

namespace DaxScript.Numeral

/-- The rational number that a numeral denotes, or `none` for a text that is no numeral. -/
def exactValue? (text : List Char) : Option ℚ :=
  (ratio? text).map fun ratio => ratio.1 / ratio.2

variable {text : List Char}

theorem denominator_pos {ratio : Nat × Nat} (found : ratio? text = some ratio) : 0 < ratio.2 := by
  unfold ratio? at found
  simp only at found
  split at found
  · split at found
    · cases found
    · cases found
      exact Nat.one_pos
  · split at found
    · cases found
      exact powerOfTen_pos _
    · cases found

/-- **A numeral is read as a whole number if its exact value is within the reach of it.** -/
theorem exists_exact {value : Binary64} (known : value? text = some value) :
    ∃ exact, exactValue? text = some exact ∧ ∀ whole : Nat, whole < 2 ^ 52 →
      (value.toNat? = some whole ↔ Binary64.Reaches exact whole) := by
  obtain ⟨ratio, found, rfl⟩ := Option.map_eq_some_iff.mp known
  refine ⟨ratio.1 / ratio.2, Option.map_eq_some_iff.mpr ⟨ratio, found, rfl⟩, fun whole small => ?_⟩
  exact Binary64.toNat?_ofRatio_iff (denominator_pos found) small

end DaxScript.Numeral
