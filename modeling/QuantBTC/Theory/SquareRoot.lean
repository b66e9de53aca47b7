/-
# Theory.SquareRoot -- the square root, one binary place at a time

The schoolbook square root in base two.  `descend` keeps the part of the radicand
that the root found so far leaves over, and that root scaled by the places still to
come, so that a trial place costs one addition and one comparison.
-/
import Mathlib

namespace QuantBTC.Theory.SquareRoot

set_option autoImplicit false

def descend : Nat → Nat → Nat → Nat
  | 0, _, scaled => scaled
  | places + 1, rest, scaled =>
    if scaled + 4 ^ places ≤ rest then
      descend places (rest - (scaled + 4 ^ places)) (scaled / 2 + 4 ^ places)
    else descend places rest (scaled / 2)

theorem four_pow (places : Nat) : 4 ^ places = 2 ^ places * 2 ^ places := mul_pow 2 2 places

theorem square_add_place (root places : Nat) :
    (root + 2 ^ places) * (root + 2 ^ places)
      = root * root + (root * 2 ^ (places + 1) + 4 ^ places) := by
  rw [four_pow, pow_succ]
  ring

theorem descend_eq_sqrt {places rest root : Nat}
    (open_ : rest + root * root < (root + 2 ^ places) * (root + 2 ^ places)) :
    descend places rest (root * 2 ^ places) = Nat.sqrt (rest + root * root) := by
  induction places generalizing rest root with
  | zero =>
    rw [pow_zero] at open_
    rw [descend, pow_zero, mul_one]
    exact Nat.eq_sqrt.mpr ⟨by omega, open_⟩
  | succ places ih =>
    have half : root * 2 ^ (places + 1) / 2 = root * 2 ^ places := by
      rw [pow_succ, ← mul_assoc, Nat.mul_div_cancel _ (by omega)]
    have place := square_add_place root places
    rw [descend, half]
    split
    next fits =>
      -- the place belongs to the root, whose square grows by what `rest` loses
      have square : rest - (root * 2 ^ (places + 1) + 4 ^ places)
          + (root + 2 ^ places) * (root + 2 ^ places) = rest + root * root := by omega
      have scaled : root * 2 ^ places + 4 ^ places = (root + 2 ^ places) * 2 ^ places := by
        rw [add_mul, four_pow]
      rw [scaled, ih, square]
      rw [square]
      rwa [show root + 2 ^ places + 2 ^ places = root + 2 ^ (places + 1) by omega]
    · exact ih (by omega)

end QuantBTC.Theory.SquareRoot
