/-
# Theory.Checked -- arithmetic that stops where a machine word would wrap

Each operation of a register of `bits` bits is computed on integers and checked: the result
is `none` where it leaves the range of the register, where a difference is negative, or
where the divisor is zero.  A formula written with these operations that returns a value is
a formula no intermediate result of which wraps, and the value is that of the formula over
unbounded integers.

The lemmas `add_eq`, `sub_eq`, `mul_eq`, `div_eq`, `mod_eq`, `signed_eq` compute an operation
whose result fits.
-/
import Mathlib

namespace QuantBTC.Theory.Checked

set_option autoImplicit false

def word (bits n : Nat) : Option Nat := if n < 2 ^ bits then some n else none

def signed (bits : Nat) (n : Int) : Option Int :=
  if -2 ^ bits ≤ n ∧ n < 2 ^ bits then some n else none

def add (bits a b : Nat) : Option Nat := word bits (a + b)

def mul (bits a b : Nat) : Option Nat := word bits (a * b)

def sub (a b : Nat) : Option Nat := if b ≤ a then some (a - b) else none

def div (a b : Nat) : Option Nat := if b = 0 then none else some (a / b)

def mod (a b : Nat) : Option Nat := if b = 0 then none else some (a % b)

variable {bits a b : Nat}

theorem word_eq (fits : a < 2 ^ bits) : word bits a = some a := if_pos fits

theorem signed_eq {n : Int} (low : -2 ^ bits ≤ n) (high : n < 2 ^ bits) :
    signed bits n = some n := if_pos ⟨low, high⟩

theorem add_eq (fits : a + b < 2 ^ bits) : add bits a b = some (a + b) := word_eq fits

theorem mul_eq (fits : a * b < 2 ^ bits) : mul bits a b = some (a * b) := word_eq fits

theorem sub_eq (fits : b ≤ a) : sub a b = some (a - b) := if_pos fits

theorem div_eq (nonzero : b ≠ 0) : div a b = some (a / b) := if_neg nonzero

theorem mod_eq (nonzero : b ≠ 0) : mod a b = some (a % b) := if_neg nonzero

end QuantBTC.Theory.Checked
