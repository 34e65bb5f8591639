import Mathlib.Data.Rat.Floor
import Mathlib.Tactic.FieldSimp
import Mathlib.Tactic.Linarith

namespace Nvx.Data

/-! Rounding to the nearest integer, half away from zero. -/

def roundAway (value : ℚ) : Int :=
  if 0 ≤ value then ⌊value + 1 / 2⌋ else -⌊-value + 1 / 2⌋

variable {value : ℚ} {bound numerator denominator : Int}

theorem roundAway_neg (value : ℚ) : roundAway (-value) = -roundAway value := by
  unfold roundAway
  rcases lt_trichotomy value 0 with negative | rfl | positive
  · rw [if_pos (by linarith), if_neg (by linarith), neg_neg]
  · norm_num
  · rw [if_neg (by linarith), if_pos positive.le, neg_neg]

theorem abs_roundAway_sub_le (value : ℚ) :
    |(roundAway value : ℚ) - value| ≤ 1 / 2 := by
  unfold roundAway
  split
  · have below := Int.floor_le (value + 1 / 2)
    have above := Int.lt_floor_add_one (value + 1 / 2)
    rw [abs_le]
    constructor <;> linarith
  · have below := Int.floor_le (-value + 1 / 2)
    have above := Int.lt_floor_add_one (-value + 1 / 2)
    rw [abs_le]
    push_cast
    constructor <;> linarith

theorem le_roundAway (reached : (bound : ℚ) ≤ value) (nonneg : 0 ≤ bound) :
    bound ≤ roundAway value := by
  have positive : 0 ≤ value := le_trans (Int.cast_nonneg nonneg) reached
  rw [roundAway, if_pos positive]
  apply Int.le_floor.mpr
  linarith

theorem roundAway_le (reached : value ≤ bound) (nonpos : bound ≤ 0) : roundAway value ≤ bound := by
  have mirrored : ((-bound : Int) : ℚ) ≤ -value := by
    push_cast
    linarith
  have above := le_roundAway mirrored (by omega)
  rw [roundAway_neg] at above
  omega

theorem abs_roundAway_le (inside : |value| ≤ bound) : |roundAway value| ≤ bound := by
  obtain ⟨low, high⟩ := abs_le.mp inside
  have near := abs_le.mp (abs_roundAway_sub_le value)
  have below : (roundAway value : ℚ) < bound + 1 := by linarith
  have above : -(bound : ℚ) - 1 < roundAway value := by linarith
  rw [abs_le]
  constructor
  · have : -bound - 1 < roundAway value := by exact_mod_cast above
    omega
  · have : roundAway value < bound + 1 := by exact_mod_cast below
    omega

theorem roundAway_div (nonneg : 0 ≤ numerator) (positive : 0 < denominator) :
    roundAway (numerator / denominator) = (numerator + denominator / 2) / denominator := by
  have above : (0 : ℚ) < denominator := Int.cast_pos.mpr positive
  rw [roundAway, if_pos (div_nonneg (Int.cast_nonneg nonneg) above.le),
    Int.floor_eq_iff, div_add_div _ _ above.ne' two_ne_zero]
  have whole := Int.mul_ediv_add_emod (numerator + denominator / 2) denominator
  have rest := Int.emod_nonneg (numerator + denominator / 2) positive.ne'
  have small := Int.emod_lt_of_pos (numerator + denominator / 2) positive
  generalize (numerator + denominator / 2) / denominator = quotient at *
  constructor
  · rw [le_div_iff₀ (by positivity)]
    have : quotient * (denominator * 2) ≤ numerator * 2 + denominator * 1 := by
      linarith [mul_comm denominator quotient, Int.ediv_mul_le denominator two_ne_zero]
    exact_mod_cast this
  · rw [div_lt_iff₀ (by positivity)]
    have : numerator * 2 + denominator * 1 < (quotient + 1) * (denominator * 2) := by
      have half := Int.lt_ediv_add_one_mul_self denominator (zero_lt_two)
      nlinarith
    exact_mod_cast this

theorem ceil_div (positive : 0 < denominator) : ⌈(numerator / denominator : ℚ)⌉ =
      (numerator + denominator - 1) / denominator := by
  have above : (0 : ℚ) < denominator := Int.cast_pos.mpr positive
  have whole := Int.mul_ediv_add_emod (numerator + denominator - 1) denominator
  have rest := Int.emod_nonneg (numerator + denominator - 1) positive.ne'
  have small := Int.emod_lt_of_pos (numerator + denominator - 1) positive
  generalize (numerator + denominator - 1) / denominator = quotient at *
  rw [Int.ceil_eq_iff, lt_div_iff₀ above, div_le_iff₀ above]
  constructor
  · have : (quotient - 1) * denominator < numerator := by linarith
    exact_mod_cast this
  · have : numerator ≤ quotient * denominator := by linarith
    exact_mod_cast this

end Nvx.Data
