/-
# Theory.Halving -- a schedule that halves a reward at fixed intervals

A reward `R` is paid at every height and shifted right by one more bit after
each `I` heights.  However far the schedule runs it pays at most `2 * I * R`
(`sum_reward_le`).  The induction carries what is still to come:
`(2 * I - n % I) * reward I R n` bounds the rest of the current interval together
with all later ones (`sum_reward_add_rest_le`).
-/
import Mathlib

namespace QuantBTC.Theory.Halving

set_option autoImplicit false

open Finset

def reward (I R h : Nat) : Nat := R / 2 ^ (h / I)

variable (I R : Nat)

theorem reward_succ_within {n : Nat} (within : (n + 1) % I ≠ 0) :
    reward I R (n + 1) = reward I R n ∧ (n + 1) % I = n % I + 1 := by
  have same : (n + 1) / I = n / I :=
    Nat.succ_div_of_not_dvd fun divides => within (Nat.mod_eq_zero_of_dvd divides)
  have before := Nat.div_add_mod n I
  have after := Nat.div_add_mod (n + 1) I
  rw [same] at after
  refine ⟨by simp only [reward, same], by omega⟩

theorem reward_succ_boundary {n : Nat} (boundary : (n + 1) % I = 0) :
    2 * reward I R (n + 1) ≤ reward I R n ∧ n % I + 1 = I := by
  have halved : (n + 1) / I = n / I + 1 :=
    Nat.succ_div_of_dvd (Nat.dvd_of_mod_eq_zero boundary)
  have shift : R / 2 ^ (n / I + 1) = R / 2 ^ (n / I) / 2 := by
    rw [pow_succ, Nat.div_div_eq_div_mul]
  have before := Nat.div_add_mod n I
  have after := Nat.div_add_mod (n + 1) I
  rw [halved, boundary, Nat.mul_add] at after
  refine ⟨?_, by omega⟩
  simp only [reward, halved, shift]
  omega

theorem sum_reward_add_rest_le (pos : 0 < I) (n : Nat) :
    ∑ h ∈ range n, reward I R h + (2 * I - n % I) * reward I R n ≤ 2 * I * R := by
  induction n with
  | zero => simp [reward]
  | succ n ih =>
    rw [sum_range_succ]
    have inside : n % I < I := Nat.mod_lt n pos
    by_cases boundary : (n + 1) % I = 0
    · obtain ⟨halves, position⟩ := reward_succ_boundary I R boundary
      have rest : 2 * I * reward I R (n + 1) ≤ I * reward I R n := by
        calc 2 * I * reward I R (n + 1) = I * (2 * reward I R (n + 1)) := by ring
          _ ≤ I * reward I R n := Nat.mul_le_mul_left I halves
      have paid : (2 * I - n % I) * reward I R n = I * reward I R n + reward I R n := by
        rw [show 2 * I - n % I = I + 1 by omega, Nat.succ_mul]
      rw [boundary, Nat.sub_zero]
      omega
    · obtain ⟨same, position⟩ := reward_succ_within I R boundary
      have paid : (2 * I - n % I) * reward I R n
          = (2 * I - (n % I + 1)) * reward I R n + reward I R n := by
        rw [show 2 * I - n % I = 2 * I - (n % I + 1) + 1 by omega, Nat.succ_mul]
      rw [same, position]
      omega

theorem sum_reward_le (pos : 0 < I) (n : Nat) :
    ∑ h ∈ range n, reward I R h ≤ 2 * I * R :=
  le_trans (Nat.le_add_right _ _) (sum_reward_add_rest_le I R pos n)

end QuantBTC.Theory.Halving
