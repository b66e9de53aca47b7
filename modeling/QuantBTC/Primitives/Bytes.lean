/-
# Primitives.Bytes -- bytes, 256-bit words and the integer encodings

A `uint256` is 32 bytes.  It is modelled by the number these bytes spell with the
first byte in front, so that `<` on it is the source's `memcmp` order;
`uintToArith256` reads the same bytes with the first byte last, as the source does
when it computes with a hash.
-/
import Mathlib

namespace QuantBTC.Primitives

set_option autoImplicit false

abbrev Bytes := List UInt8

abbrev Uint256 := Fin (2 ^ 256)

instance neZero_uint256 : NeZero (2 ^ 256) := inferInstance

instance lawfulBEq_uint256 : LawfulBEq Uint256 := inferInstance

def leBytes : Nat → Nat → Bytes
  | 0, _ => []
  | w + 1, n => UInt8.ofNat n :: leBytes w (n / 256)

@[simp] theorem length_leBytes (w n : Nat) : (leBytes w n).length = w := by
  induction w generalizing n with
  | zero => rfl
  | succ w ih => simp [leBytes, ih]

def ofLeBytes : Bytes → Nat
  | [] => 0
  | b :: bs => b.toNat + 256 * ofLeBytes bs

theorem ofLeBytes_leBytes {w n : Nat} (lt : n < 256 ^ w) : ofLeBytes (leBytes w n) = n := by
  induction w generalizing n with
  | zero =>
    rw [Nat.pow_zero] at lt
    simp only [leBytes, ofLeBytes]
    omega
  | succ w ih =>
    rw [Nat.pow_succ] at lt
    have byte : (UInt8.ofNat n).toNat = n % 256 := UInt8.toNat_ofNat'
    rw [leBytes, ofLeBytes, ih (by omega), byte]
    omega

theorem ofLeBytes_lt (bytes : Bytes) : ofLeBytes bytes < 256 ^ bytes.length := by
  induction bytes with
  | nil => exact Nat.one_pos
  | cons byte bytes ih =>
    have bound := byte.toNat_lt
    rw [ofLeBytes, List.length_cons, Nat.pow_succ]
    omega

theorem leBytes_ofLeBytes (bytes : Bytes) : leBytes bytes.length (ofLeBytes bytes) = bytes := by
  induction bytes with
  | nil => rfl
  | cons byte bytes ih =>
    have bound := byte.toNat_lt
    have quotient : (byte.toNat + 256 * ofLeBytes bytes) / 256 = ofLeBytes bytes := by omega
    have low : UInt8.ofNat (byte.toNat + 256 * ofLeBytes bytes) = byte := by
      apply UInt8.toNat_inj.mp
      rw [UInt8.toNat_ofNat']
      omega
    rw [ofLeBytes, List.length_cons, leBytes, quotient, ih, low]

def uint256Bytes (x : Uint256) : Bytes := (leBytes 32 x.val).reverse

@[simp] theorem length_uint256Bytes (x : Uint256) : (uint256Bytes x).length = 32 := by
  simp [uint256Bytes]

theorem uint256Bytes_injective : Function.Injective uint256Bytes := by
  intro x y same
  have digits := congrArg ofLeBytes (List.reverse_injective same)
  rw [ofLeBytes_leBytes (lt_of_lt_of_eq x.isLt (by decide)),
    ofLeBytes_leBytes (lt_of_lt_of_eq y.isLt (by decide))] at digits
  exact Fin.ext digits

def uint256OfBytes (bytes : Bytes) : Uint256 := Fin.ofNat (2 ^ 256) (ofLeBytes bytes.reverse)

theorem uint256Bytes_uint256OfBytes {bytes : Bytes} (width : bytes.length = 32) :
    uint256Bytes (uint256OfBytes bytes) = bytes := by
  have small := ofLeBytes_lt bytes.reverse
  have back := leBytes_ofLeBytes bytes.reverse
  rw [List.length_reverse, width] at small back
  have value : (uint256OfBytes bytes).val = ofLeBytes bytes.reverse :=
    Nat.mod_eq_of_lt (lt_of_lt_of_eq small (by decide))
  rw [uint256Bytes, value, back, List.reverse_reverse]

theorem leBytes_uint32_ofNat {bytes : Bytes} (width : bytes.length = 4) :
    leBytes 4 (UInt32.ofNat (ofLeBytes bytes)).toNat = bytes := by
  have small := ofLeBytes_lt bytes
  have back := leBytes_ofLeBytes bytes
  rw [width] at small back
  rw [UInt32.toNat_ofNat_of_lt' small, back]

def uintToArith256 (x : Uint256) : Nat := ofLeBytes (uint256Bytes x)

def writeCompactSize (n : Nat) : Bytes :=
  if n < 253 then leBytes 1 n
  else if n ≤ 0xffff then 253 :: leBytes 2 n
  else if n ≤ 0xffffffff then 254 :: leBytes 4 n
  else 255 :: leBytes 8 n

def digitHash (bytes : Bytes) : Uint256 :=
  Fin.ofNat (2 ^ 256) (bytes.foldl (fun acc b => (acc * 257 + b.toNat + 1) % 2 ^ 256) 0)

end QuantBTC.Primitives
