/-
# Theory.Drift -- two quantities scaled side by side

Two quantities are scaled by one ratio, round by round, and clipped at one limit; the first
is also divided by a factor of its own and loses a small share to rounding.  Up to the
shares lost so far, the second exceeds the first by at most the product of the factors.
-/
import Mathlib

namespace QuantBTC.Theory.Drift

set_option autoImplicit false

variable {K : Type} [Field K] [LinearOrder K] [IsStrictOrderedRing K]

theorem one_sub_add_le {lost share : K} (nonneg : 0 ≤ lost) (loss : 0 ≤ share) :
    1 - (lost + share) ≤ (1 - lost) * (1 - share) := by
  have product : 0 ≤ lost * share := mul_nonneg nonneg loss
  have expand : (1 - lost) * (1 - share) = 1 - (lost + share) + lost * share := by ring
  rw [expand]
  exact le_add_of_nonneg_right product

theorem bound_step {x y x' y' bound factor rate limit lost share : K}
    (one_le : 1 ≤ bound) (factor_ge : 1 ≤ factor) (rate_nonneg : 0 ≤ rate)
    (lost_nonneg : 0 ≤ lost) (lost_le : lost ≤ 1) (share_nonneg : 0 ≤ share) (share_le : share ≤ 1)
    (before : y * (1 - lost) ≤ bound * x)
    (low : (1 - share) * min (x * rate / factor) limit ≤ x')
    (high : y' ≤ min (y * rate) limit) (nonneg : 0 ≤ y') :
    y' * (1 - (lost + share)) ≤ bound * factor * x' := by
  have losses : y' * (1 - (lost + share)) ≤ y' * ((1 - lost) * (1 - share)) :=
    mul_le_mul_of_nonneg_left (one_sub_add_le lost_nonneg share_nonneg) nonneg
  have kept : 0 ≤ 1 - share := sub_nonneg.mpr share_le
  have left : 0 ≤ 1 - lost := sub_nonneg.mpr lost_le
  have factor_pos : 0 < factor := lt_of_lt_of_le one_pos factor_ge
  have positive : 0 < bound * factor := mul_pos (lt_of_lt_of_le one_pos one_le) factor_pos
  rcases le_total (x * rate / factor) limit with inside | clipped
  · -- the factor cancels, and the old bound is scaled
    rw [min_eq_left inside] at low
    have cancel : bound * factor * ((1 - share) * (x * rate / factor))
        = (1 - share) * rate * (bound * x) := by
      field_simp
    calc y' * (1 - (lost + share))
        ≤ y' * ((1 - lost) * (1 - share)) := losses
      _ ≤ y * rate * ((1 - lost) * (1 - share)) :=
          mul_le_mul_of_nonneg_right (le_trans high (min_le_left _ _))
            (mul_nonneg left kept)
      _ = (1 - share) * rate * (y * (1 - lost)) := by ring
      _ ≤ (1 - share) * rate * (bound * x) :=
          mul_le_mul_of_nonneg_left before (mul_nonneg kept rate_nonneg)
      _ = bound * factor * ((1 - share) * (x * rate / factor)) := cancel.symm
      _ ≤ bound * factor * x' := mul_le_mul_of_nonneg_left low (le_of_lt positive)
  · -- at the limit both are the limit, and the bound is no less than one
    rw [min_eq_right clipped] at low
    have top : y' ≤ limit := le_trans high (min_le_right _ _)
    have some_ : 0 ≤ x' := le_trans (mul_nonneg kept (le_trans nonneg top)) low
    calc y' * (1 - (lost + share))
        ≤ y' * (1 - share) := mul_le_mul_of_nonneg_left (by linarith) nonneg
      _ ≤ (1 - share) * limit := by
          rw [mul_comm]
          exact mul_le_mul_of_nonneg_left top kept
      _ ≤ 1 * x' := by rwa [one_mul]
      _ ≤ bound * factor * x' := mul_le_mul_of_nonneg_right (one_le_mul_of_one_le_of_one_le one_le factor_ge) some_

end QuantBTC.Theory.Drift
