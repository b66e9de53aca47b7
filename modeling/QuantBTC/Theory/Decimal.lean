/-
# Theory.Decimal -- rationals with a fixed number of decimal places

Rounding to a number of decimal places, ties to the even last digit.  A number that has
no more places than that is its own rounding, and such numbers are closed under sums and
differences.
-/
import Mathlib

namespace QuantBTC.Theory.Decimal

set_option autoImplicit false

def roundHalfEven (x : ℚ) : ℤ :=
  if x - ⌊x⌋ < 1 / 2 then ⌊x⌋
  else if 1 / 2 < x - ⌊x⌋ then ⌊x⌋ + 1
  else if ⌊x⌋ % 2 = 0 then ⌊x⌋
  else ⌊x⌋ + 1

def roundTo (places : Nat) (x : ℚ) : ℚ := roundHalfEven (x * 10 ^ places) / 10 ^ places

example : (roundTo 1 0.25, roundTo 1 0.35, roundTo 1 (-0.26)) = (0.2, 0.4, -0.3) := by
  decide +kernel

def IsDecimal (places : Nat) (x : ℚ) : Prop := ∃ n : ℤ, x = n / 10 ^ places

theorem floor_le_roundHalfEven (x : ℚ) : ⌊x⌋ ≤ roundHalfEven x := by
  unfold roundHalfEven
  split_ifs <;> omega

theorem roundHalfEven_intCast (n : ℤ) : roundHalfEven n = n := by
  have noFraction : (n : ℚ) - ⌊(n : ℚ)⌋ < 1 / 2 := by
    rw [Int.floor_intCast, sub_self]
    norm_num
  rw [roundHalfEven, if_pos noFraction, Int.floor_intCast]

variable {places : Nat} {x y : ℚ}

theorem isDecimal_roundTo (places : Nat) (x : ℚ) : IsDecimal places (roundTo places x) :=
  ⟨roundHalfEven (x * 10 ^ places), rfl⟩

theorem roundTo_of_isDecimal (decimal : IsDecimal places x) : roundTo places x = x := by
  obtain ⟨n, rfl⟩ := decimal
  have scale : (10 : ℚ) ^ places ≠ 0 := pow_ne_zero _ (by norm_num)
  rw [roundTo, div_mul_cancel₀ _ scale, roundHalfEven_intCast]

theorem roundTo_nonneg (nonneg : 0 ≤ x) : 0 ≤ roundTo places x := by
  have scaled : 0 ≤ x * 10 ^ places := mul_nonneg nonneg (by positivity)
  have rounded : (0 : ℤ) ≤ roundHalfEven (x * 10 ^ places) :=
    le_trans (Int.floor_nonneg.mpr scaled) (floor_le_roundHalfEven _)
  exact div_nonneg (by exact_mod_cast rounded) (by positivity)

namespace IsDecimal

theorem zero (places : Nat) : IsDecimal places 0 := ⟨0, by simp⟩

theorem add (left : IsDecimal places x) (right : IsDecimal places y) :
    IsDecimal places (x + y) := by
  obtain ⟨m, rfl⟩ := left
  obtain ⟨n, rfl⟩ := right
  exact ⟨m + n, by rw [Int.cast_add, add_div]⟩

theorem sub (left : IsDecimal places x) (right : IsDecimal places y) :
    IsDecimal places (x - y) := by
  obtain ⟨m, rfl⟩ := left
  obtain ⟨n, rfl⟩ := right
  exact ⟨m - n, by rw [Int.cast_sub, sub_div]⟩

end IsDecimal

end QuantBTC.Theory.Decimal
