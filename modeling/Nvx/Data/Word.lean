import Mathlib.Algebra.Order.BigOperators.Ring.Finset

namespace Nvx.Data

/-! Unsigned machine words as natural numbers.  An operation that can leave the
word returns the wrapped result with the mark that it did. -/

def wordSize (bits : Nat) : Nat := 2 ^ bits

def overflowingAdd (bits left right : Nat) : Nat × Bool :=
  if left + right < wordSize bits then (left + right, false)
  else (left + right - wordSize bits, true)

def overflowingSub (bits left right : Nat) : Nat × Bool :=
  if right ≤ left then (left - right, false)
  else (left + wordSize bits - right, true)

def saturatingAdd (bits left right : Nat) : Nat :=
  min (left + right) (wordSize bits - 1)

def saturatingMul (bits left right : Nat) : Nat :=
  min (left * right) (wordSize bits - 1)

def checkedAdd (bits left right : Nat) : Option Nat :=
  if left + right < wordSize bits then some (left + right) else none

def checkedMul (bits left right : Nat) : Option Nat :=
  if left * right < wordSize bits then some (left * right) else none

def divCeil (value divisor : Nat) : Nat :=
  if value % divisor = 0 then value / divisor else value / divisor + 1

def isPowerOfTwo (value : UInt32) : Bool :=
  value != 0 && (value &&& (value - 1)) == 0

theorem overflowingAdd_of_lt (fits : left + right < wordSize bits) :
    overflowingAdd bits left right = (left + right, false) := by
  simp [overflowingAdd, fits]

theorem overflowingSub_of_le (fits : right ≤ left) :
    overflowingSub bits left right = (left - right, false) := by
  simp [overflowingSub, fits]

theorem checkedAdd_eq_some_iff : checkedAdd bits left right = some value ↔
      left + right < wordSize bits ∧ left + right = value := by
  simp [checkedAdd]

theorem checkedMul_eq_some_iff : checkedMul bits left right = some value ↔
      left * right < wordSize bits ∧ left * right = value := by
  simp [checkedMul]

theorem le_divCeil_mul (value : Nat) (positive : 0 < divisor) :
    value ≤ divCeil value divisor * divisor := by
  have whole := Nat.div_add_mod' value divisor
  have below := Nat.mod_lt value positive
  unfold divCeil
  split
  · omega
  · rw [Nat.add_mul]
    omega

end Nvx.Data
