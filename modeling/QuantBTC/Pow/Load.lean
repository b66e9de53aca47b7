/-
# Pow.Load -- what the load multiplier does to a target

The multiplier of `pow.cpp` is the square root of the load ratio in 16-bit fixed point.
The bit-by-bit loop of `IntegerSquareRoot` computes that root exactly, so one
transaction per block above the baseline already gives a multiplier that is further
from one than the precision of the compact encoding.
-/
import QuantBTC.Pow.Difficulty
import QuantBTC.Theory.SquareRoot

namespace QuantBTC.Pow

set_option autoImplicit false

open Theory

/-! ## The square root loop -/

def placeBit : Nat → UInt64
  | 0 => 0
  | places + 1 => UInt64.ofNat (4 ^ places)

variable {places : Nat}

theorem four_pow_lt (few : places < 32) : 4 ^ places < 2 ^ 64 :=
  lt_of_le_of_lt (Nat.pow_le_pow_right (by omega) (Nat.le_of_lt_succ few)) (by decide)

theorem toNat_placeBit (few : places < 32) : (placeBit (places + 1)).toNat = 4 ^ places := by
  rw [placeBit, UInt64.toNat_ofNat']
  exact Nat.mod_eq_of_lt (four_pow_lt few)

theorem placeBit_shiftRight (few : places < 32) :
    placeBit (places + 1) >>> 2 = placeBit places := by
  apply UInt64.toNat_inj.mp
  rw [UInt64.toNat_shiftRight, toNat_placeBit few]
  cases places with
  | zero => decide
  | succ places =>
    rw [toNat_placeBit (by omega), Nat.shiftRight_eq_div_pow, pow_succ]
    simp

theorem squareRootStart_spec {n : UInt64} {fuel : Nat} (few : fuel ≤ 32)
    (fits : n.toNat < 4 ^ fuel) :
    ∃ places ≤ fuel, squareRootStart n fuel (placeBit fuel) = placeBit places ∧
      n.toNat < 4 ^ places := by
  induction fuel with
  | zero => exact ⟨0, le_refl _, rfl, fits⟩
  | succ fuel ih =>
    grind [squareRootStart, UInt64.lt_iff_toNat_lt, toNat_placeBit, placeBit_shiftRight]

theorem squareRootLoop_toNat {fuel root : Nat} {n result : UInt64} (enough : places ≤ fuel)
    (room : root + 2 ^ places ≤ 2 ^ 32) (scaled : result.toNat = root * 2 ^ places) :
    (squareRootLoop fuel (placeBit places) n result).toNat
      = SquareRoot.descend places n.toNat result.toNat := by
  induction places generalizing fuel root n result with
  | zero => cases fuel <;> rfl
  | succ places ih =>
    obtain ⟨fuel, rfl⟩ : ∃ before, fuel = before + 1 := ⟨fuel - 1, by omega⟩
    have few : places < 32 := by
      have : 2 ^ (places + 1) ≤ 2 ^ 32 := le_trans (Nat.le_add_left _ _) room
      have := (Nat.pow_le_pow_iff_right (by omega)).mp this
      omega
    have place : 0 < 2 ^ places := Nat.two_pow_pos places
    have twice : 2 ^ (places + 1) = 2 ^ places + 2 ^ places := by omega
    have bit := toNat_placeBit few
    have nonzero : placeBit (places + 1) ≠ 0 := by
      intro zero
      rw [zero] at bit
      exact absurd bit.symm (Nat.pow_pos (by omega)).ne'
    have fits : root * 2 ^ (places + 1) + 4 ^ places < 2 ^ 64 := by
      have square := SquareRoot.square_add_place root places
      have := Nat.mul_lt_mul'' (show root + 2 ^ places < 2 ^ 32 by omega)
        (show root + 2 ^ places < 2 ^ 32 by omega)
      omega
    have sum : (result + placeBit (places + 1)).toNat = result.toNat + 4 ^ places := by
      rw [UInt64.toNat_add, bit]
      exact Nat.mod_eq_of_lt (by rw [scaled]; exact fits)
    have half : (result >>> 1).toNat = result.toNat / 2 := by
      rw [UInt64.toNat_shiftRight, Nat.shiftRight_eq_div_pow]
      rfl
    have halved : result.toNat / 2 = root * 2 ^ places := by
      rw [scaled, pow_succ, ← mul_assoc, Nat.mul_div_cancel _ (by omega)]
    rw [squareRootLoop, if_pos nonzero, SquareRoot.descend, placeBit_shiftRight few]
    split
    next taken =>
      rw [ge_iff_le, UInt64.le_iff_toNat_le, sum] at taken
      have next_ : (result >>> 1 + placeBit (places + 1)).toNat
          = (root + 2 ^ places) * 2 ^ places := by
        rw [UInt64.toNat_add, half, bit, halved, add_mul, SquareRoot.four_pow]
        refine Nat.mod_eq_of_lt ?_
        rw [← SquareRoot.four_pow]
        omega
      rw [if_pos taken, ih (by omega) (by omega) next_, next_, halved,
        UInt64.toNat_sub_of_le _ _ (UInt64.le_iff_toNat_le.mpr (by omega)), sum, add_mul,
        SquareRoot.four_pow]
    next left =>
      rw [ge_iff_le, UInt64.le_iff_toNat_le, sum] at left
      rw [if_neg left, ih (by omega) (by omega) (half.trans halved), half]

theorem integerSquareRoot_eq (n : UInt64) : (integerSquareRoot n).toNat = Nat.sqrt n.toNat := by
  obtain ⟨places, few, start, fits⟩ := squareRootStart_spec (le_refl 32) (UInt64.toNat_lt n)
  have top : (1 : UInt64) <<< 62 = placeBit 32 := by decide
  have loop : (squareRootLoop 32 (placeBit places) n 0).toNat
      = SquareRoot.descend places n.toNat (0 * 2 ^ places) := by
    rw [Nat.zero_mul]
    refine squareRootLoop_toNat few ?_ (Nat.zero_mul (2 ^ places)).symm
    rw [Nat.zero_add]
    exact Nat.pow_le_pow_right (by omega) few
  rw [integerSquareRoot, top, start, loop, SquareRoot.descend_eq_sqrt, Nat.zero_mul, Nat.add_zero]
  simpa [← SquareRoot.four_pow] using fits

/-! ## The multiplier -/

theorem loadMultScaled_eq {avgTx : UInt64} (loaded : 200 < avgTx) :
    (loadMultScaled avgTx 200 4).toNat = Nat.sqrt (min avgTx.toNat 3200 * 2 ^ 32 / 200) := by
  obtain ⟨capped, cap, value⟩ : ∃ capped : UInt64,
      capped = min avgTx (200 * 4 * 4) ∧ capped.toNat = min avgTx.toNat 3200 := by
    refine ⟨_, rfl, ?_⟩
    have top : (200 * 4 * 4 : UInt64).toNat = 3200 := by decide
    rw [show min avgTx (200 * 4 * 4) = if avgTx ≤ 200 * 4 * 4 then avgTx else 200 * 4 * 4 from rfl]
    split
    all_goals grind [UInt64.le_iff_toNat_le, Nat.min_eq_left, Nat.min_eq_right]
  have least : 201 ≤ avgTx.toNat := UInt64.lt_iff_toNat_lt.mp loaded
  have ratio : (capped * fpScale * fpScale / 200).toNat = min avgTx.toNat 3200 * 2 ^ 32 / 200 := by
    rw [UInt64.toNat_div, UInt64.toNat_mul, UInt64.toNat_mul]
    simp only [show fpScale.toNat = 65536 from rfl, show (200 : UInt64).toNat = 200 from rfl, value]
    omega
  have root := integerSquareRoot_eq (capped * fpScale * fpScale / 200)
  rw [ratio] at root
  have low : 65536 ≤ Nat.sqrt (min avgTx.toNat 3200 * 2 ^ 32 / 200) := by
    rw [Nat.le_sqrt]
    omega
  have high : Nat.sqrt (min avgTx.toNat 3200 * 2 ^ 32 / 200) ≤ 262144 := by
    rw [← Nat.lt_succ_iff, Nat.sqrt_lt]
    omega
  simp only [loadMultScaled, ← cap]
  have small : ¬integerSquareRoot (capped * fpScale * fpScale / 200) < fpScale := by
    rw [UInt64.lt_iff_toNat_lt, root]
    exact not_lt.mpr low
  have large : ¬integerSquareRoot (capped * fpScale * fpScale / 200) > 4 * fpScale := by
    rw [gt_iff_lt, UInt64.lt_iff_toNat_lt, root]
    exact not_lt.mpr high
  rw [if_neg small, if_neg large, root]

theorem loadMultScaled_of_loaded {avgTx : UInt64} (loaded : 200 < avgTx) :
    65699 ≤ (loadMultScaled avgTx 200 4).toNat := by
  have least : 201 ≤ avgTx.toNat := UInt64.lt_iff_toNat_lt.mp loaded
  rw [loadMultScaled_eq loaded, Nat.le_sqrt]
  omega

theorem windowLoadMult_eq {params : Consensus.Params} {txLast txFirst : UInt64} {window recent : Nat}
    (difference : recent = txLast.toNat - txFirst.toNat) (small : recent / window < 2 ^ 63)
    (fits : window < 2 ^ 64) (baseline : params.nLoadDiffBaseline < 2 ^ 64) :
    windowLoadMult params txLast txFirst (UInt64.ofNat window)
      = if params.nLoadDiffBaseline < recent / window then
          some (loadMultScaled (UInt64.ofNat (recent / window))
            (UInt64.ofNat params.nLoadDiffBaseline) (UInt64.ofNat params.nLoadDiffMaxMultiplier))
        else none := by
  rcases Nat.lt_or_ge txFirst.toNat txLast.toNat with grew | shrank
  case inr =>
    have zero : recent = 0 := by omega
    rw [windowLoadMult, if_neg (by rw [gt_iff_lt, UInt64.lt_iff_toNat_lt]; omega),
      if_neg (by rw [zero, Nat.zero_div]; omega)]
  have average : (txLast - txFirst) / UInt64.ofNat window = UInt64.ofNat (recent / window) := by
    apply UInt64.toNat_inj.mp
    rw [UInt64.toNat_div, UInt64.toNat_sub_of_le _ _ (UInt64.le_iff_toNat_le.mpr (by omega)),
      UInt64.toNat_ofNat', UInt64.toNat_ofNat', Nat.mod_eq_of_lt fits,
      Nat.mod_eq_of_lt (by omega), difference]
  have signed : (UInt64.ofNat (recent / window)).toInt64 > 0 ↔ 0 < recent / window := by
    rw [gt_iff_lt, Int64.lt_iff_toInt_lt]
    have value : (UInt64.ofNat (recent / window)).toInt64.toInt = (recent / window : Nat) := by
      change (UInt64.ofNat (recent / window)).toBitVec.toInt = _
      grind [BitVec.toInt_eq_toNat_of_lt, UInt64.ofNat, UInt64.toNat_ofNat', Nat.mod_eq_of_lt]
    rw [value]
    exact Int.natCast_pos
  have above : UInt64.ofNat (recent / window) > UInt64.ofNat params.nLoadDiffBaseline ↔
      params.nLoadDiffBaseline < recent / window := by
    grind [UInt64.lt_iff_toNat_lt, UInt64.toNat_ofNat', Nat.mod_eq_of_lt]
  rw [windowLoadMult, if_pos (by rw [gt_iff_lt, UInt64.lt_iff_toNat_lt]; exact grew)]
  grind

theorem getCompact_loaded_iff {bnNew bnPowLimit : Nat} {loadMult : UInt64}
    (fits : bnNew * fpScale.toNat < 2 ^ 256) (limit : bnPowLimit < 2 ^ 256)
    (loaded : 65699 ≤ loadMult.toNat) :
    getCompact (clipToLimit (applyLoadMult bnNew (some loadMult)) bnPowLimit)
        = getCompact (clipToLimit bnNew bnPowLimit) ↔
      bnNew = 0 ∨
        setCompact (getCompact bnPowLimit) * loadMult.toNat ≤ bnNew * fpScale.toNat := by
  have scale : fpScale.toNat = 65536 := rfl
  have digit : 0 < 8 := by omega
  have two : 2 ≤ 3 := by omega
  obtain ⟨reduced, value⟩ : ∃ reduced, reduced = bnNew * fpScale.toNat / loadMult.toNat :=
    ⟨_, rfl⟩
  have applied : applyLoadMult bnNew (some loadMult) = reduced := by
    rw [applyLoadMult, mul256_of_lt fits, value]
  have product : reduced * loadMult.toNat ≤ bnNew * 65536 := by
    rw [value, scale]
    exact Nat.div_mul_le_self _ _
  have least : reduced * 65699 ≤ bnNew * 65536 := le_trans (Nat.mul_le_mul_left _ loaded) product
  have hidden : setCompact (getCompact bnPowLimit) * loadMult.toNat ≤ bnNew * fpScale.toNat ↔
      DigitFloor.floor 8 3 bnPowLimit ≤ reduced := by
    rw [setCompact_getCompact limit, value, Nat.le_div_iff_mul_le (by omega)]
  have rounded := DigitFloor.floor_le 8 3 bnPowLimit
  have clipped : ∀ bn, clipToLimit bn bnPowLimit = min bn bnPowLimit := by
    intro bn
    rw [clipToLimit]
    split <;> omega
  rw [applied, hidden, clipped, clipped, getCompact_eq_iff (by omega) (by omega)]
  constructor
  · intro same
    by_contra shows
    rw [not_or, not_le] at shows
    obtain ⟨pos, below⟩ := shows
    rw [min_eq_left (by omega)] at same
    rcases le_total bnNew bnPowLimit with inside | above
    · rw [min_eq_left inside] at same
      exact absurd same (DigitFloor.floor_lt_floor digit two (by omega) (by omega)).ne
    · rw [min_eq_right above] at same
      have := DigitFloor.floor_le 8 3 reduced
      omega
  · rintro (rfl | high)
    · rw [show reduced = 0 by omega]
    · have easiest : ∀ bn, DigitFloor.floor 8 3 bnPowLimit ≤ bn →
          DigitFloor.floor 8 3 (min bn bnPowLimit) = DigitFloor.floor 8 3 bnPowLimit := by
        intro bn le
        apply le_antisymm (DigitFloor.floor_mono digit two (min_le_right _ _))
        exact (DigitFloor.floor_le_iff digit two).mpr (le_min le rounded)
      rw [easiest reduced high, easiest bnNew (by omega)]

end QuantBTC.Pow
