/-
# Theory.DigitFloor -- rounding a number down to a few leading digits

A floating format whose digits have `w` bits and whose mantissa keeps `d` digits,
the top bit of the first being reserved for a sign: a number of `b` bits keeps the
exponent `b / w + 1 - d` and loses the bits below it.  `floor w d` is that rounding.
-/
import Mathlib

namespace QuantBTC.Theory.DigitFloor

set_option autoImplicit false

def bits (n : Nat) : Nat := if n = 0 then 0 else n.log2 + 1

theorem bits_le_iff {n k : Nat} : bits n ≤ k ↔ n < 2 ^ k := by
  unfold bits
  split
  next zero => simp [zero]
  next pos => exact Nat.log2_lt pos

theorem lt_two_pow_bits (n : Nat) : n < 2 ^ bits n := bits_le_iff.mp (le_refl _)

theorem bits_mono {m n : Nat} (le : m ≤ n) : bits m ≤ bits n :=
  bits_le_iff.mpr (lt_of_le_of_lt le (lt_two_pow_bits n))

theorem two_pow_bits_le {n : Nat} (pos : n ≠ 0) : 2 ^ (bits n - 1) ≤ n := by
  simpa [bits, pos] using Nat.log2_self_le pos

theorem bits_pos {n : Nat} (pos : n ≠ 0) : 0 < bits n := by simp [bits, pos]

section

variable (w d : Nat)

def exponent (n : Nat) : Nat := bits n / w + 1 - d

def floor (n : Nat) : Nat := n / 2 ^ (w * exponent w d n) * 2 ^ (w * exponent w d n)

theorem floor_le (n : Nat) : floor w d n ≤ n := Nat.div_mul_le_self _ _

@[simp] theorem floor_zero : floor w d 0 = 0 := by simp [floor]

variable {w d}

theorem mul_exponent_lt_bits (digit : 0 < w) (two : 2 ≤ d) {n : Nat} (pos : n ≠ 0) :
    w * exponent w d n ≤ bits n - 1 := by
  have some_bits := bits_pos pos
  unfold exponent
  have le : w * (bits n / w + 1 - d) ≤ w * (bits n / w - 1) :=
    Nat.mul_le_mul_left w (by omega)
  have below : w * (bits n / w - 1) ≤ bits n - w := by
    rw [Nat.mul_sub, Nat.mul_one]
    exact Nat.sub_le_sub_right (Nat.mul_div_le _ _) w
  omega

theorem two_pow_bits_le_floor (digit : 0 < w) (two : 2 ≤ d) {n : Nat} (pos : n ≠ 0) :
    2 ^ (bits n - 1) ≤ floor w d n := by
  have split : 2 ^ (bits n - 1)
      = 2 ^ (bits n - 1 - w * exponent w d n) * 2 ^ (w * exponent w d n) := by
    rw [← pow_add, Nat.sub_add_cancel (mul_exponent_lt_bits digit two pos)]
  have kept : 2 ^ (bits n - 1 - w * exponent w d n) ≤ n / 2 ^ (w * exponent w d n) := by
    rw [Nat.le_div_iff_mul_le (Nat.two_pow_pos _), ← split]
    exact two_pow_bits_le pos
  rw [split]
  exact Nat.mul_le_mul_right _ kept

theorem bits_floor (digit : 0 < w) (two : 2 ≤ d) (n : Nat) : bits (floor w d n) = bits n := by
  rcases eq_or_ne n 0 with rfl | pos
  · simp
  apply le_antisymm (bits_mono (floor_le w d n))
  have top := two_pow_bits_le_floor digit two pos
  by_contra fewer
  have small : floor w d n < 2 ^ (bits n - 1) := bits_le_iff.mp (by omega)
  omega

theorem floor_floor (digit : 0 < w) (two : 2 ≤ d) (n : Nat) :
    floor w d (floor w d n) = floor w d n := by
  have same : exponent w d (floor w d n) = exponent w d n := by
    simp only [exponent, bits_floor digit two n]
  rw [floor, same]
  exact congrArg (· * _) (Nat.mul_div_cancel _ (Nat.two_pow_pos _))

theorem floor_mono (digit : 0 < w) (two : 2 ≤ d) {m n : Nat} (le : m ≤ n) :
    floor w d m ≤ floor w d n := by
  rcases eq_or_lt_of_le (bits_mono le) with same | fewer
  · have : exponent w d m = exponent w d n := by simp only [exponent, same]
    unfold floor
    rw [this]
    exact Nat.mul_le_mul_right _ (Nat.div_le_div_right le)
  · have pos : n ≠ 0 := by
      rintro rfl
      simp [bits] at fewer
    calc floor w d m ≤ m := floor_le w d m
      _ ≤ 2 ^ (bits n - 1) := le_of_lt (bits_le_iff.mp (by omega))
      _ ≤ floor w d n := two_pow_bits_le_floor digit two pos

theorem floor_le_iff (digit : 0 < w) (two : 2 ≤ d) {m n : Nat} :
    floor w d m ≤ floor w d n ↔ floor w d m ≤ n := by
  constructor
  · exact fun le => le_trans le (floor_le w d n)
  · intro le
    rw [← floor_floor digit two m]
    exact floor_mono digit two le

theorem lt_floor_add (n : Nat) : n < floor w d n + 2 ^ (w * exponent w d n) := by
  rw [floor, Nat.mul_comm]
  exact Nat.lt_mul_div_succ n (Nat.two_pow_pos _)

theorem two_pow_exponent_le (digit : 0 < w) (two : 2 ≤ d) {n : Nat} (rounds : exponent w d n ≠ 0) :
    2 ^ (w * exponent w d n) ≤ n / 2 ^ (w * (d - 1) - 1) := by
  have pos : n ≠ 0 := by
    rintro rfl
    simp only [exponent, bits, if_pos, Nat.zero_div] at rounds
    omega
  have whole : w * exponent w d n + w * (d - 1) ≤ bits n := by
    rw [← Nat.mul_add]
    refine le_trans (Nat.mul_le_mul_left w ?_) (Nat.mul_div_le (bits n) w)
    unfold exponent at rounds ⊢
    omega
  have kept : 0 < w * (d - 1) := Nat.mul_pos digit (by omega)
  rw [Nat.le_div_iff_mul_le (Nat.two_pow_pos _), ← pow_add]
  exact le_trans (Nat.pow_le_pow_right (by omega) (by omega)) (two_pow_bits_le pos)

theorem floor_lt_floor (digit : 0 < w) (two : 2 ≤ d) {m n : Nat} (less : m < n)
    (gap : m + n / 2 ^ (w * (d - 1) - 1) ≤ n) : floor w d m < floor w d n := by
  apply lt_of_le_of_lt (floor_le w d m)
  rcases eq_or_ne (exponent w d n) 0 with exact_ | rounds
  · simpa [floor, exact_] using less
  · have kept := lt_floor_add (w := w) (d := d) n
    have small := two_pow_exponent_le digit two rounds
    omega

end

end QuantBTC.Theory.DigitFloor
