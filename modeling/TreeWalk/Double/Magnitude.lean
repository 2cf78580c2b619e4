import TreeWalk.Decimal

/-!
# Magnitudes of binary64 numbers

The 63 bits beside the sign of a binary64 number are its code. The finite magnitudes
come first, in the order of their codes, then infinity, then what is not a number.
Every finite magnitude is a whole number of units of `2 ^ -1074`, so rounding to the
nearest magnitude needs natural numbers only.
-/

namespace TreeWalk.Double

/-- The binary place of the unit, the least positive magnitude. -/
def unitPlaces : Nat := 1074

/-- The code of infinity, the first that belongs to no finite magnitude. -/
def infinityCode : Nat := 0x7ff0000000000000

/-- How many binary places above `2 ^ -1074` the last bit of the significand stands. -/
def shift (code : Nat) : Nat :=
  code >>> 52 - 1

/-- The significand, with the leading bit that normal numbers leave out. -/
def significand (code : Nat) : Nat :=
  code - shift code <<< 52

/-- The magnitude of a finite code, counted in units of `2 ^ -1074`. -/
def units (code : Nat) : Nat :=
  significand code <<< shift code

/-- The code nearest to a quotient of units; halfway, the even one of the two neighbours.
Counting up past the largest significand of a shift gives the least of the next shift. -/
def nearestUnits (numerator denominator : Nat) : Nat :=
  let places := (numerator / denominator).log2 - 52
  let step := denominator <<< places
  let below := numerator / step
  let twice := 2 * (numerator % step)
  let up := step < twice || (step == twice && below % 2 == 1)
  min (places <<< 52 + below + up.toNat) infinityCode

/-- The code nearest to a decimal. -/
def ofDecimal (decimal : Decimal) : Nat :=
  nearestUnits (decimal.coefficient <<< unitPlaces) (Nat.pow 10 decimal.places)

/-- A code is its significand put at its shift. -/
theorem shiftLeft_shift_add_significand (code : Nat) :
    shift code <<< 52 + significand code = code := by
  unfold significand shift
  omega

/-- A significand fills its 53 bits, except where the shift is least. -/
theorem significand_bounds (code : Nat) :
    significand code < 1 <<< 53 ∧ (shift code = 0 ∨ 1 <<< 52 ≤ significand code) := by
  unfold significand shift
  omega

/-- The shift can be read off the units. -/
theorem log2_units (code : Nat) : (units code).log2 - 52 = shift code := by
  obtain ⟨below, atLeast⟩ := significand_bounds code
  rcases atLeast with least | full
  · rw [units, least, Nat.shiftLeft_zero]
    by_cases zero : significand code = 0
    · rw [zero]; rfl
    · have : (significand code).log2 < 53 := (Nat.log2_lt zero).2 below
      omega
  · have whole : units code = significand code * 2 ^ shift code := Nat.shiftLeft_eq _ _
    have nonzero : significand code ≠ 0 := by
      intro zero
      rw [zero] at full
      cases full
    have positive : units code ≠ 0 := by
      rw [whole]
      exact Nat.mul_ne_zero nonzero (Nat.ne_of_gt (Nat.two_pow_pos _))
    have length : (units code).log2 = 52 + shift code := by
      have next : 52 + shift code + 1 = 53 + shift code := by omega
      rw [Nat.log2_eq_iff positive, whole, next, Nat.pow_add, Nat.pow_add]
      exact ⟨Nat.mul_le_mul_right _ full, (Nat.mul_lt_mul_right (Nat.two_pow_pos _)).2 below⟩
    omega

/-- A finite magnitude is nearest to itself, however it is written as a quotient. -/
theorem nearestUnits_mul {code denominator : Nat} (finite : code < infinityCode)
    (positive : 0 < denominator) :
    nearestUnits (units code * denominator) denominator = code := by
  have step : 0 < denominator <<< shift code := by
    rw [Nat.shiftLeft_eq]
    exact Nat.mul_pos positive (Nat.two_pow_pos _)
  have places : (units code * denominator / denominator).log2 - 52 = shift code := by
    rw [Nat.mul_div_cancel _ positive, log2_units]
  have scaled : units code * denominator = significand code * denominator <<< shift code := by
    rw [units, Nat.shiftLeft_eq, Nat.shiftLeft_eq, Nat.mul_assoc, Nat.mul_comm denominator]
  have below : units code * denominator / denominator <<< shift code = significand code := by
    rw [scaled, Nat.mul_div_cancel _ step]
  have remainder : units code * denominator % denominator <<< shift code = 0 := by
    rw [scaled, Nat.mul_mod_left]
  have whole := shiftLeft_shift_add_significand code
  have settle : nearestUnits (units code * denominator) denominator =
      min (shift code <<< 52 + significand code + 0) infinityCode := by
    rw [nearestUnits]
    simp only [places, below, remainder]
    rw [Nat.mul_zero, beq_false_of_ne (Nat.ne_of_gt step), Bool.false_and, Bool.or_false,
      decide_eq_false (Nat.not_lt_zero _), Bool.toNat_false]
  rw [settle, Nat.add_zero, whole, Nat.min_eq_left (Nat.le_of_lt finite)]

end TreeWalk.Double
