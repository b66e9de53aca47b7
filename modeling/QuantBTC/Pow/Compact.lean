/-
# Pow.Compact -- the compact encoding of a target

`arith_uint256` is a natural number below `2 ^ 256`; its products and left shifts
wrap.  `SetCompact` decodes the compact form used in `nBits`: one byte for the size
in bytes, a sign bit and a mantissa of 23 bits; `GetCompact` encodes, dropping the
bytes that do not fit.
-/
import QuantBTC.Theory.DigitFloor

namespace QuantBTC.Pow

set_option autoImplicit false

open Theory

/-! ## Wrapping 256-bit arithmetic -/

def mul256 (a b : Nat) : Nat := a * b % 2 ^ 256

def shl256 (a shift : Nat) : Nat := (a <<< shift) % 2 ^ 256

def add256 (a b : Nat) : Nat := (a + b) % 2 ^ 256

theorem mul256_of_lt {a b : Nat} (fits : a * b < 2 ^ 256) : mul256 a b = a * b :=
  Nat.mod_eq_of_lt fits

def setCompact (nCompact : UInt32) : Nat :=
  let nSize := nCompact.toNat >>> 24
  let nWord := nCompact.toNat &&& 0x007fffff
  if nSize ≤ 3 then nWord >>> (8 * (3 - nSize))
  else shl256 nWord (8 * (nSize - 3))

def setCompactWord (nCompact : UInt32) : Nat :=
  let nSize := nCompact.toNat >>> 24
  let nWord := nCompact.toNat &&& 0x007fffff
  if nSize ≤ 3 then nWord >>> (8 * (3 - nSize)) else nWord

def setCompactNegative (nCompact : UInt32) : Bool :=
  setCompactWord nCompact != 0 && (nCompact.toNat &&& 0x00800000) != 0

def setCompactOverflow (nCompact : UInt32) : Bool :=
  let nSize := nCompact.toNat >>> 24
  let nWord := setCompactWord nCompact
  nWord != 0 && (decide (nSize > 34) || (decide (nWord > 0xff) && decide (nSize > 33)) ||
    (decide (nWord > 0xffff) && decide (nSize > 32)))

def getBlockProof (nBits : UInt32) : Nat :=
  let bnTarget := setCompact nBits
  if setCompactNegative nBits ∨ setCompactOverflow nBits ∨ bnTarget = 0 then 0
  else add256 ((2 ^ 256 - 1 - bnTarget) / add256 bnTarget 1) 1

def getCompact (n : Nat) : UInt32 :=
  let nSize := (DigitFloor.bits n + 7) / 8
  let nCompact := if nSize ≤ 3 then n <<< (8 * (3 - nSize)) else n >>> (8 * (nSize - 3))
  -- the sign bit is set: one byte less of mantissa, one more of size
  if nCompact &&& 0x00800000 ≠ 0 then UInt32.ofNat ((nCompact >>> 8) ||| ((nSize + 1) <<< 24))
  else UInt32.ofNat (nCompact ||| (nSize <<< 24))

/-! ## Round trip -/

def mantissa (n size : Nat) : Nat :=
  if size ≤ 3 then n * 2 ^ (8 * (3 - size)) else n / 2 ^ (8 * (size - 3))

theorem mantissa_lt {n size j : Nat} (fits : j ≤ 8 * size) (short : j ≤ 24)
    (lt : n < 2 ^ (8 * size - j)) : mantissa n size < 2 ^ (24 - j) := by
  unfold mantissa
  split
  · have whole : 2 ^ (24 - j) = 2 ^ (8 * size - j) * 2 ^ (8 * (3 - size)) := by
      rw [← pow_add]
      congr 1
      omega
    rw [whole]
    exact Nat.mul_lt_mul_of_pos_right lt (Nat.two_pow_pos _)
  · rw [Nat.div_lt_iff_lt_mul (Nat.two_pow_pos _), ← pow_add]
    rwa [show 24 - j + 8 * (size - 3) = 8 * size - j by omega]

theorem le_mantissa {n size : Nat} (pos : 0 < size) (le : 2 ^ (8 * size - 1) ≤ n) :
    2 ^ 23 ≤ mantissa n size := by
  unfold mantissa
  split
  · have whole : 2 ^ 23 = 2 ^ (8 * size - 1) * 2 ^ (8 * (3 - size)) := by
      rw [← pow_add]
      congr 1
      omega
    rw [whole]
    exact Nat.mul_le_mul_right _ le
  · rw [Nat.le_div_iff_mul_le (Nat.two_pow_pos _), ← pow_add]
    rwa [show 23 + 8 * (size - 3) = 8 * size - 1 by omega]

theorem mantissa_div (n size : Nat) : mantissa n size / 2 ^ 8 = mantissa n (size + 1) := by
  unfold mantissa
  rcases Nat.lt_trichotomy size 3 with less | rfl | more
  · rw [if_pos (by omega), if_pos (by omega), show 8 * (3 - size) = 8 * (3 - (size + 1)) + 8 by omega,
      pow_add, ← Nat.mul_assoc, Nat.mul_div_cancel _ (Nat.two_pow_pos 8)]
  · simp
  · rw [if_neg (by omega), if_neg (by omega), Nat.div_div_eq_div_mul, ← pow_add,
      show 8 * (size - 3) + 8 = 8 * (size + 1 - 3) by omega]

def encodedSize (n : Nat) : Nat := if n = 0 then 0 else DigitFloor.bits n / 8 + 1

theorem mantissa_encodedSize_lt (n : Nat) : mantissa n (encodedSize n) < 2 ^ 23 := by
  rcases eq_or_ne n 0 with rfl | pos
  · simp [mantissa, encodedSize]
  rw [encodedSize, if_neg pos]
  refine mantissa_lt (j := 1) (by omega) (by omega) ?_
  exact lt_of_lt_of_le (DigitFloor.lt_two_pow_bits n) (Nat.pow_le_pow_right (by omega) (by omega))

theorem signBit_set_iff {x : Nat} (lt : x < 2 ^ 24) : x &&& 0x00800000 ≠ 0 ↔ 2 ^ 23 ≤ x := by
  rw [show 0x00800000 = 2 ^ 23 from rfl, Nat.and_two_pow, Nat.testBit_eq_decide_div_mod_eq]
  grind [Nat.mod_eq_of_lt, Nat.mul_eq_zero, Bool.toNat_eq_zero]

theorem or_shiftLeft_eq {word : Nat} (size : Nat) (lt : word < 2 ^ 23) :
    word ||| size <<< 24 = size * 2 ^ 24 + word := by
  rw [Nat.or_comm, ← Nat.shiftLeft_add_eq_or_of_lt (by omega), Nat.shiftLeft_eq]

theorem getCompact_eq (n : Nat) :
    getCompact n = UInt32.ofNat (encodedSize n * 2 ^ 24 + mantissa n (encodedSize n)) := by
  have room := mantissa_encodedSize_lt n
  have scaled : ∀ size, (if size ≤ 3 then n <<< (8 * (3 - size)) else n >>> (8 * (size - 3)))
      = mantissa n size := by
    intro size
    simp only [mantissa, Nat.shiftLeft_eq, Nat.shiftRight_eq_div_pow]
  simp only [getCompact, scaled]
  rcases eq_or_ne n 0 with rfl | pos
  · decide
  have upper := DigitFloor.lt_two_pow_bits n
  have lower := DigitFloor.two_pow_bits_le pos
  have some_bits := DigitFloor.bits_pos pos
  have size : encodedSize n = DigitFloor.bits n / 8 + 1 := if_neg pos
  have whole : mantissa n ((DigitFloor.bits n + 7) / 8) < 2 ^ 24 :=
    mantissa_lt (j := 0) (by omega) (by omega)
      (lt_of_lt_of_le upper (Nat.pow_le_pow_right (by omega) (by omega)))
  rcases Nat.eq_zero_or_pos (DigitFloor.bits n % 8) with full | free
  · -- the number fills its bytes, so the sign bit is set and the size grows by one
    have larger : encodedSize n = (DigitFloor.bits n + 7) / 8 + 1 := by omega
    have filled : 2 ^ 23 ≤ mantissa n ((DigitFloor.bits n + 7) / 8) :=
      le_mantissa (by omega) (by
        rwa [show 8 * ((DigitFloor.bits n + 7) / 8) - 1 = DigitFloor.bits n - 1 by omega])
    rw [if_pos ((signBit_set_iff whole).mpr filled), Nat.shiftRight_eq_div_pow, mantissa_div,
      ← larger, or_shiftLeft_eq _ room]
  · grind [DigitFloor.bits, signBit_set_iff, or_shiftLeft_eq]

theorem setCompact_ofNat {size word : Nat} (small : size < 2 ^ 8) (lt : word < 2 ^ 23) :
    setCompact (UInt32.ofNat (size * 2 ^ 24 + word)) =
      if size ≤ 3 then word / 2 ^ (8 * (3 - size)) else word * 2 ^ (8 * (size - 3)) % 2 ^ 256 := by
  have value : (UInt32.ofNat (size * 2 ^ 24 + word)).toNat = size * 2 ^ 24 + word := by
    rw [UInt32.toNat_ofNat']
    omega
  have top : (size * 2 ^ 24 + word) >>> 24 = size := by
    rw [Nat.shiftRight_eq_div_pow]
    omega
  have low : (size * 2 ^ 24 + word) &&& 0x007fffff = word := by
    rw [show 0x007fffff = 2 ^ 23 - 1 from rfl, Nat.and_two_pow_sub_one_eq_mod]
    omega
  simp only [setCompact, value, top, low, shl256, Nat.shiftRight_eq_div_pow, Nat.shiftLeft_eq]

theorem encodedSize_lt {n : Nat} (lt : n < 2 ^ 256) : encodedSize n ≤ 33 := by
  have := DigitFloor.bits_le_iff.mpr lt
  unfold encodedSize
  split <;> omega

theorem setCompact_getCompact {n : Nat} (lt : n < 2 ^ 256) :
    setCompact (getCompact n) = DigitFloor.floor 8 3 n := by
  have small := encodedSize_lt lt
  rw [getCompact_eq, setCompact_ofNat (by omega) (mantissa_encodedSize_lt n)]
  rcases eq_or_ne n 0 with rfl | pos
  · simp [encodedSize, mantissa]
  have exponent : DigitFloor.exponent 8 3 n = encodedSize n - 3 := by
    simp [DigitFloor.exponent, encodedSize, pos]
  rw [DigitFloor.floor, exponent, mantissa]
  split
  next short =>
    rw [Nat.mul_div_cancel _ (Nat.two_pow_pos _), Nat.sub_eq_zero_of_le short]
    simp
  · exact Nat.mod_eq_of_lt (lt_of_le_of_lt (Nat.div_mul_le_self _ _) lt)

theorem getCompact_floor (n : Nat) : getCompact (DigitFloor.floor 8 3 n) = getCompact n := by
  have bits := DigitFloor.bits_floor (w := 8) (d := 3) (by omega) (by omega) n
  rcases eq_or_ne n 0 with rfl | pos
  · rw [DigitFloor.floor_zero]
  have kept : DigitFloor.floor 8 3 n ≠ 0 := by
    intro zero
    rw [zero] at bits
    have := DigitFloor.bits_pos pos
    simp only [DigitFloor.bits, if_pos] at bits this
    omega
  have size : encodedSize (DigitFloor.floor 8 3 n) = encodedSize n := by
    simp only [encodedSize, kept, pos, bits]
  have exponent : DigitFloor.exponent 8 3 n = encodedSize n - 3 := by
    simp [DigitFloor.exponent, encodedSize, pos]
  rw [getCompact_eq, getCompact_eq, size, mantissa, mantissa, DigitFloor.floor, exponent]
  split
  next short => simp [Nat.sub_eq_zero_of_le short]
  · rw [Nat.mul_div_cancel _ (Nat.two_pow_pos _)]

theorem getCompact_eq_iff {m n : Nat} (small : m < 2 ^ 256) (lt : n < 2 ^ 256) :
    getCompact m = getCompact n ↔ DigitFloor.floor 8 3 m = DigitFloor.floor 8 3 n := by
  grind [setCompact_getCompact, getCompact_floor]

end QuantBTC.Pow
