/-
# Primitives.VarInt -- the variable-length integers of the block database

`WriteVarInt` and `ReadVarInt`.  A number is cut into groups of seven bits, the highest group
first; every byte but the last has its high bit set, and each group above the lowest is stored
less one, so that no number has two encodings.  The writer fills its buffer from the lowest
group upwards and then writes it backwards.
-/
import QuantBTC.Primitives.BlockSerialization

namespace QuantBTC.Primitives

set_option autoImplicit false

open Theory (Reader)
open Theory.Reader (Reads)

/-! ## The two loops -/

def varIntByte (len : Nat) (n : Int) : UInt8 :=
  UInt8.ofNat (n % 128).toNat ||| (if len = 0 then 0x00 else 0x80)

def fillTmp : Nat → Nat → Int → Bytes
  | 0, _, _ => []
  | slots + 1, len, n =>
    if n ≤ 0x7F then [varIntByte len n]
    else varIntByte len n :: fillTmp slots (len + 1) (n / 128 - 1)

def writeVarInt (n : Int) : Bytes := (fillTmp ((32 + 6) / 7) 0 n).reverse

def readVarIntLoop (max n : Nat) : Bytes → Except String (Nat × Bytes)
  | [] => .error "DataStream::read(): end of data"
  | chData :: rest =>
    if n > max / 128 then .error "ReadVarInt(): size too large"
    else
      let next := n * 128 + (chData &&& 0x7F).toNat
      if chData &&& 0x80 ≠ 0 then
        if next = max then .error "ReadVarInt(): size too large"
        else readVarIntLoop max (next + 1) rest
      else .ok (next, rest)

def readVarInt (max : Nat) : Unserialize Nat := readVarIntLoop max 0

/-! ## One byte -/

theorem group_bits (group : Fin 128) :
    ((UInt8.ofNat group ||| 0x00) &&& 0x7F).toNat = group ∧
      (UInt8.ofNat group ||| 0x00) &&& 0x80 = 0 ∧
      ((UInt8.ofNat group ||| 0x80) &&& 0x7F).toNat = group ∧
      (UInt8.ofNat group ||| 0x80) &&& 0x80 ≠ 0 := by
  revert group
  decide +kernel

theorem varIntByte_low (len n : Nat) : (varIntByte len n &&& 0x7F).toNat = n % 128 := by
  have bits := group_bits ⟨n % 128, Nat.mod_lt n (by decide)⟩
  have group : ((n : Int) % 128).toNat = n % 128 := by omega
  rw [varIntByte, group]
  split
  · exact bits.1
  · exact bits.2.2.1

theorem varIntByte_more (len n : Nat) : varIntByte len n &&& 0x80 ≠ 0 ↔ len ≠ 0 := by
  have bits := group_bits ⟨n % 128, Nat.mod_lt n (by decide)⟩
  have group : ((n : Int) % 128).toNat = n % 128 := by omega
  rw [varIntByte, group]
  split
  next first => exact iff_of_false (fun more => more bits.2.1) (fun later => later first)
  next later => exact iff_of_true bits.2.2.2 later

/-! ## The reader on one byte of the writer -/

section Step

variable {max n so : Nat}

theorem readVarIntLoop_more {len : Nat} (rest : Bytes) (later : len ≠ 0) (high : so = n / 128)
    (below : n < max) :
    readVarIntLoop max so (varIntByte len n :: rest) = readVarIntLoop max (n + 1) rest := by
  have fits : ¬so > max / 128 := by
    have := Nat.div_le_div_right (c := 128) below.le
    omega
  have whole : so * 128 + n % 128 = n := by omega
  have more : varIntByte len n &&& 0x80 ≠ 0 := (varIntByte_more len n).mpr later
  simp only [readVarIntLoop, if_neg fits, varIntByte_low, whole, if_pos more, if_neg below.ne]

theorem readVarIntLoop_last (rest : Bytes) (high : so = n / 128) (inRange : n ≤ max) :
    readVarIntLoop max so (varIntByte 0 n :: rest) = .ok (n, rest) := by
  have fits : ¬so > max / 128 := by
    have := Nat.div_le_div_right (c := 128) inRange
    omega
  have whole : so * 128 + n % 128 = n := by omega
  have last : ¬varIntByte 0 n &&& 0x80 ≠ 0 := fun more => (varIntByte_more 0 n).mp more rfl
  simp only [readVarIntLoop, if_neg fits, varIntByte_low, whole, if_neg last]

end Step

/-! ## Round trip -/

theorem fillTmp_succ (slots len : Nat) {n : Nat} (big : 127 < n) :
    fillTmp (slots + 1) len n = varIntByte len n :: fillTmp slots (len + 1) (n / 128 - 1 : Nat) := by
  have shifted : (n : Int) / 128 - 1 = ((n / 128 - 1 : Nat) : Int) := by omega
  rw [fillTmp, if_neg (by omega), shifted]

theorem fillTmp_one (slots len : Nat) {n : Nat} (small : n ≤ 127) :
    fillTmp (slots + 1) len n = [varIntByte len n] := by
  rw [fillTmp, if_pos (by omega)]

theorem readVarIntLoop_fillTmp (rest : Bytes) {max : Nat} (slots len : Nat) {n : Nat}
    (room : n < 128 ^ (slots + 1)) (later : len ≠ 0) (below : n < max) :
    readVarIntLoop max 0 ((fillTmp (slots + 1) len n).reverse ++ rest)
      = readVarIntLoop max (n + 1) rest := by
  induction slots generalizing len n rest with
  | zero =>
    have small : n ≤ 127 := by omega
    rw [fillTmp_one 0 len small]
    exact readVarIntLoop_more rest later (by omega) below
  | succ slots ih =>
    by_cases small : n ≤ 127
    · rw [fillTmp_one _ len small]
      exact readVarIntLoop_more rest later (by omega) below
    · have big : 127 < n := by omega
      have roomAbove : n / 128 - 1 < 128 ^ (slots + 1) := by
        rw [Nat.pow_succ] at room
        omega
      rw [fillTmp_succ _ len big, List.reverse_cons, List.append_assoc,
        ih _ (len + 1) roomAbove (by omega) (by omega)]
      exact readVarIntLoop_more rest later (by omega) below

theorem reads_varInt {max n : Nat} (width : max < 2 ^ 32) (inRange : n ≤ max) :
    Reads (readVarInt max) (writeVarInt n) n := by
  intro rest
  show readVarIntLoop max 0 ((fillTmp 5 0 n).reverse ++ rest) = .ok (n, rest)
  by_cases small : n ≤ 127
  · rw [fillTmp_one _ 0 small]
    exact readVarIntLoop_last rest (by omega) inRange
  · have big : 127 < n := by omega
    rw [fillTmp_succ _ 0 big, List.reverse_cons, List.append_assoc,
      readVarIntLoop_fillTmp _ 3 1 (by omega) (by omega) (by omega)]
    exact readVarIntLoop_last rest (by omega) inRange

example : writeVarInt 256 = [0x81, 0x00] := by decide

/-! ## The types of the block database -/

def readVarUInt32 : Unserialize UInt32 := do
  let n ← readVarInt 0xffffffff
  pure (UInt32.ofNat n)

theorem reads_varUInt32 (n : UInt32) : Reads readVarUInt32 (writeVarInt n.toNat) n := by
  have bytes : Reads (readVarInt 0xffffffff) (writeVarInt n.toNat) n.toNat :=
    reads_varInt (by decide) (Nat.le_of_lt_succ n.toNat_lt)
  have number := bytes.bind_pure UInt32.ofNat
  rwa [UInt32.ofNat_toNat] at number

def readVarInt32 : Unserialize Int32 := do
  let n ← readVarInt 0x7fffffff
  pure (Int32.ofNat n)

theorem reads_varInt32 {n : Int32} (nonneg : 0 ≤ n) :
    Reads readVarInt32 (writeVarInt n.toInt) n := by
  have signed : (0 : Int) ≤ n.toInt := Int32.le_iff_toInt_le.mp nonneg
  have below := n.toInt_lt
  have value : n.toInt = (n.toInt.toNat : Int) := by omega
  have bytes : Reads (readVarInt 0x7fffffff) (writeVarInt n.toInt.toNat) n.toInt.toNat :=
    reads_varInt (by decide) (by omega)
  have number := bytes.bind_pure Int32.ofNat
  rw [← value] at number
  have back : Int32.ofNat n.toInt.toNat = n := by
    rw [← Int32.ofInt_eq_ofNat, ← value, Int32.ofInt_toInt]
  rwa [back] at number

end QuantBTC.Primitives
