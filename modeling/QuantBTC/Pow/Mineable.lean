/-
# Pow.Mineable -- whether the next target can still be met

`CheckProofOfWork` refuses an `nBits` that is negative, overflows, decodes to zero or lies
above the limit, whatever the hash.  The limit clips an adjusted target from above; nothing
keeps it above zero.  The moving average divides by 1000 before it multiplies, so a target
below 1000 becomes zero; the window divides after it multiplies, so its target becomes zero
when the timespan and the load multiplier outweigh it.
-/
import QuantBTC.Pow.Presync
import QuantBTC.Pow.Load

namespace QuantBTC.Pow

set_option autoImplicit false

open Consensus Theory

/-! ## The range check -/

structure InRange (params : Params) (nBits : UInt32) : Prop where
  notNegative : setCompactNegative nBits = false
  nonzero : setCompact nBits ≠ 0
  notOverflow : setCompactOverflow nBits = false
  le_limit : setCompact nBits ≤ params.powLimit

theorem inRange_iff (params : Params) (nBits : UInt32) :
    InRange params nBits ↔ ¬(setCompactNegative nBits = true ∨ setCompact nBits = 0 ∨
      setCompactOverflow nBits = true ∨ setCompact nBits > params.powLimit) := by
  constructor
  · rintro ⟨notNegative, nonzero, notOverflow, le_limit⟩
    simp only [notNegative, nonzero, notOverflow, Bool.false_eq_true, false_or, gt_iff_lt]
    exact Nat.not_lt.mpr le_limit
  · intro passes
    simp only [not_or, Bool.not_eq_true, gt_iff_lt, Nat.not_lt] at passes
    exact ⟨passes.1, passes.2.1, passes.2.2.1, passes.2.2.2⟩

instance (params : Params) (nBits : UInt32) : Decidable (InRange params nBits) :=
  decidable_of_iff _ (inRange_iff params nBits).symm

theorem checkProofOfWork_iff (hash : Nat) (nBits : UInt32) (params : Params) :
    checkProofOfWork hash nBits params = true ↔
      InRange params nBits ∧ hash ≤ setCompact nBits := by
  rw [inRange_iff, checkProofOfWork]
  split
  next refused => exact iff_of_false (by decide) (fun both => both.1 refused)
  next passes =>
    split
    next above => exact iff_of_false (by decide) (fun both => absurd both.2 (Nat.not_le.mpr above))
    next within => exact iff_of_true rfl ⟨passes, Nat.not_lt.mp within⟩

theorem getCompact_parts {n : Nat} (lt : n < 2 ^ 236) :
    (getCompact n).toNat >>> 24 ≤ 30 ∧ (getCompact n).toNat &&& 0x00800000 = 0 := by
  have size : encodedSize n ≤ 30 := by
    have := DigitFloor.bits_le_iff.mpr lt
    unfold encodedSize
    split <;> omega
  have word := mantissa_encodedSize_lt n
  have value : (getCompact n).toNat = encodedSize n * 2 ^ 24 + mantissa n (encodedSize n) := by
    rw [getCompact_eq, UInt32.toNat_ofNat']
    omega
  constructor
  · rw [value, Nat.shiftRight_eq_div_pow]
    omega
  · rw [value, show 0x00800000 = 2 ^ 23 from rfl, Nat.and_two_pow,
      Nat.testBit_eq_decide_div_mod_eq, Nat.mul_eq_zero]
    left
    rw [Bool.toNat_eq_zero, decide_eq_false_iff_not]
    omega

theorem inRange_getCompact_iff {params : Params} (limit : params.powLimit < 2 ^ 236) {n : Nat}
    (within : n ≤ params.powLimit) : InRange params (getCompact n) ↔ n ≠ 0 := by
  obtain ⟨size, sign⟩ := getCompact_parts (lt_of_le_of_lt within limit)
  have decoded := setCompact_getCompact (show n < 2 ^ 256 by omega)
  constructor
  · rintro inRange rfl
    exact inRange.nonzero (by rw [decoded, DigitFloor.floor_zero])
  · intro positive
    have kept := DigitFloor.two_pow_bits_le_floor (w := 8) (d := 3) (by omega) (by omega) positive
    have below := DigitFloor.floor_le 8 3 n
    refine ⟨?_, ?_, ?_, ?_⟩
    · simp only [setCompactNegative, sign, bne_self_eq_false, Bool.and_false]
    · rw [decoded]
      exact Nat.ne_of_gt (lt_of_lt_of_le (Nat.two_pow_pos _) kept)
    · simp only [setCompactOverflow, show ¬(getCompact n).toNat >>> 24 > 34 by omega,
        show ¬(getCompact n).toNat >>> 24 > 33 by omega,
        show ¬(getCompact n).toNat >>> 24 > 32 by omega, decide_false, Bool.and_false,
        Bool.or_false]
    · rw [decoded]
      omega

/-! ## What the multiplier takes -/

def windowLoad (last first : BlockEntry) : Nat :=
  (last.mChainTxCount.toNat - first.mChainTxCount.toNat) / 4031

def wholeMult (load : Nat) : Nat :=
  if load ≤ 200 then 1 else if load ≤ 800 then 2 else if load ≤ 1800 then 3 else 4

theorem windowModeLoadMult_main (last first : BlockEntry) :
    windowModeLoadMult last first qbtcMainParams
      = if 200 < windowLoad last first then
          some (loadMultScaled (UInt64.ofNat (windowLoad last first)) 200 4) else none := by
  have counts := UInt64.toNat_lt last.mChainTxCount
  have on : windowModeLoadMult last first qbtcMainParams
      = windowLoadMult qbtcMainParams last.mChainTxCount first.mChainTxCount (UInt64.ofNat 4031) :=
    rfl
  rw [on]
  exact windowLoadMult_eq rfl (by omega) (by decide) (by decide)

theorem loadScale_le_iff (last first : BlockEntry) (q : Nat) :
    retargetLoad last first ≤ q * 65536 ↔ wholeMult (windowLoad last first) ≤ q := by
  have small : windowLoad last first < 2 ^ 64 :=
    lt_of_le_of_lt (Nat.div_le_self _ _)
      (lt_of_le_of_lt (Nat.sub_le _ _) (UInt64.toNat_lt last.mChainTxCount))
  rw [retargetLoad, windowModeLoadMult_main]
  generalize windowLoad last first = load at small ⊢
  split
  next loaded =>
    have value : (UInt64.ofNat load).toNat = load := by
      rw [UInt64.toNat_ofNat', Nat.mod_eq_of_lt small]
    rw [Option.getD_some,
      loadMultScaled_eq (by rw [UInt64.lt_iff_toNat_lt, value]; exact loaded), value,
      ← Nat.lt_succ_iff, Nat.sqrt_lt]
    unfold wholeMult
    rw [if_neg (by omega)]
    -- Beyond four the capped ratio is always smaller, so three squares are compared.
    rcases Nat.lt_or_ge q 4 with few | enough
    · interval_cases q <;> split_ifs <;> omega
    · have square : 262145 * 262145 ≤ (q * 65536).succ * (q * 65536).succ :=
        Nat.mul_le_mul (by omega) (by omega)
      split_ifs <;> omega
  next idle =>
    rw [Option.getD_none, wholeMult, if_pos (by omega), show fpScale.toNat = 65536 from rfl]
    omega

/-! ## The next target -/

def StaysMineable (network : DagChain) (chain : Chain) : Prop :=
  match network with
  | .qbtcTestNet => 256 ≤ chain.nHeight → 1000 ≤ setCompact chain.last.nBits
  | .qbtcMain => Retargets chain →
      ∀ first, chain.getAncestor ((chain.nHeight : Int) - 4031) = some first →
        4032 * wholeMult (windowLoad chain.last first)
          ≤ setCompact chain.last.nBits * retargetTimespan chain.last first

section

variable {params : Params} {chain : Chain}

theorem adjustedTarget_ne_zero_iff (adjust : AdjustParams params) (limit : params.powLimit ≠ 0)
    (target : setCompact chain.last.nBits ≤ params.powLimit) :
    adjustedTarget params chain ≠ 0 ↔
      loadScale params chain ≤ timeTarget params chain * 65536 := by
  obtain ⟨least, -⟩ := loadScale_bounds adjust chain
  rw [adjustedTarget_eq adjust target, ← Nat.pos_iff_ne_zero,
    ← Nat.div_pos_iff.trans (and_iff_right (show 0 < loadScale params chain by omega))]
  generalize timeTarget params chain * 65536 / loadScale params chain = scaled
  unfold clipToLimit
  split <;> omega

theorem inRange_unadjustedBits (limitBits : InRange params (getCompact params.powLimit))
    (last : InRange params chain.last.nBits) : InRange params (unadjustedBits params chain) := by
  unfold unadjustedBits
  split
  · exact limitBits
  · exact last

theorem nextWork_inRange (adjust : AdjustParams params) (limit : params.powLimit ≠ 0)
    (last : InRange params chain.last.nBits) (nBlockTime : Int) :
    (∃ nBits, getNextWorkRequiredDAG chain nBlockTime params = some nBits ∧
        InRange params nBits) ↔
      (Adjusts params chain.nHeight →
        loadScale params chain ≤ timeTarget params chain * 65536) := by
  have limitBits : InRange params (getCompact params.powLimit) :=
    (inRange_getCompact_iff adjust.powLimit (le_refl _)).mpr limit
  have within : adjustedTarget params chain ≤ params.powLimit := clipToLimit_le _ _
  rw [← adjustedTarget_ne_zero_iff adjust limit last.le_limit,
    ← inRange_getCompact_iff adjust.powLimit within, getNextWorkRequiredDAG_eq adjust]
  simp only [Option.some.injEq, exists_eq_left']
  by_cases adjusts : Adjusts params chain.nHeight
  · rw [if_pos adjusts]
    exact ⟨fun inRange _ => inRange, fun inRange => inRange adjusts⟩
  · rw [if_neg adjusts]
    exact iff_of_true (inRange_unadjustedBits limitBits last) (fun late => absurd late adjusts)

end

theorem scaled_testNet_iff {chain : Chain}
    (target : setCompact chain.last.nBits ≤ qbtcTestNetParams.powLimit) :
    loadScale qbtcTestNetParams chain ≤ timeTarget qbtcTestNetParams chain * 65536 ↔
      1000 ≤ setCompact chain.last.nBits := by
  have adjust := adjustParams_network .qbtcTestNet
  obtain ⟨least, most⟩ := loadScale_bounds adjust chain
  have rate : 333 ≤ timeRate qbtcTestNetParams chain :=
    (emaAdjustMilli_bounds rfl chain _ _).1
  rw [show qbtcTestNetParams = DagChain.qbtcTestNet.consensus from rfl] at target ⊢
  rw [timeTarget_ema adjust rfl target]
  constructor
  · intro scaled
    by_contra small
    rw [Nat.div_eq_of_lt (by omega), Nat.zero_mul, Nat.zero_mul] at scaled
    exact absurd (le_trans least scaled) (by decide)
  · intro large
    have product : 1 * 333 ≤ setCompact chain.last.nBits / 1000
        * timeRate DagChain.qbtcTestNet.consensus chain :=
      Nat.mul_le_mul (by omega) rate
    omega

theorem scaled_main_iff {chain : Chain} (late : 4032 ≤ chain.nHeight)
    (target : setCompact chain.last.nBits ≤ qbtcMainParams.powLimit) :
    loadScale qbtcMainParams chain ≤ timeTarget qbtcMainParams chain * 65536 ↔
      ∀ first, chain.getAncestor ((chain.nHeight : Int) - 4031) = some first →
        4032 * wholeMult (windowLoad chain.last first)
          ≤ setCompact chain.last.nBits * retargetTimespan chain.last first := by
  obtain ⟨first, found⟩ := exists_first late
  have adjust := adjustParams_network .qbtcMain
  have offset : ((qbtcMainParams.nDagDiffWindowSize : Nat) : Int) - 1 = 4031 := rfl
  have load : loadScale qbtcMainParams chain = retargetLoad chain.last first := by
    rw [loadScale, adjustLoadMult, if_neg (by decide), offset, found, retargetLoad]
  have rate : timeRate qbtcMainParams chain = retargetTimespan chain.last first := by
    rw [timeRate, if_neg (by decide), offset, found]
    rfl
  have scaled : timeTarget qbtcMainParams chain
      = setCompact chain.last.nBits * retargetTimespan chain.last first / 4032 := by
    rw [← rate]
    exact timeTarget_window adjust rfl (by decide) target
  rw [load, scaled, loadScale_le_iff, Nat.le_div_iff_mul_le (by decide),
    Nat.mul_comm (wholeMult _)]
  simp only [found, Option.some.injEq, forall_eq']

/-- **The next `nBits` can be met exactly if the chain's target survives the rounding.**  The
last `nBits` pass the range check of `CheckProofOfWork`; times and transaction counts are any. -/
theorem nextWork_inRange_iff (network : DagChain) (chain : Chain) (nBlockTime : Int)
    (last : InRange network.consensus chain.last.nBits) :
    (∃ nBits, getNextWorkRequiredDAG chain nBlockTime network.consensus = some nBits ∧
        InRange network.consensus nBits) ↔
      StaysMineable network chain := by
  have limit : network.consensus.powLimit ≠ 0 := by cases network <;> decide
  rw [nextWork_inRange (adjustParams_network network) limit last]
  cases network with
  | qbtcTestNet =>
    rw [adjusts_ema rfl]
    exact imp_congr_right fun _ => scaled_testNet_iff last.le_limit
  | qbtcMain =>
    rw [adjusts_window rfl]
    exact imp_congr_right fun retargets => scaled_main_iff retargets.1 last.le_limit

def settledChain (nBits : UInt32) : Chain :=
  ⟨⟨1743381760, nBits, 257⟩, List.replicate 256 ⟨1743379200, 0x1e0fffff, 1⟩⟩

theorem nextWork_inRange_target_1000 :
    ∃ nBits, getNextWorkRequiredDAG (settledChain 0x0203e800) 1743381770 qbtcTestNetParams
        = some nBits ∧ InRange qbtcTestNetParams nBits :=
  (nextWork_inRange_iff .qbtcTestNet (settledChain 0x0203e800) 1743381770 (by decide)).mpr
    (fun _ => by decide)

/-- After a block with the target 999, which is in range, the test chain asks for the target
zero, which no hash meets. -/
theorem target_999_not_mineable :
    InRange qbtcTestNetParams (settledChain 0x0203e700).last.nBits ∧
      setCompact (settledChain 0x0203e700).last.nBits = 999 ∧
      getNextWorkRequiredDAG (settledChain 0x0203e700) 1743381770 qbtcTestNetParams = some 0 ∧
      ¬InRange qbtcTestNetParams 0 := by
  decide +kernel

end QuantBTC.Pow
