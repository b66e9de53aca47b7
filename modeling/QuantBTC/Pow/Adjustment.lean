/-
# Pow.Adjustment -- one adjustment of the target, in either mode

`GetNextWorkRequiredDAG` scales the target of the last block by a ratio of times, divides
it by the load multiplier, clips it to the limit and encodes it.  The two modes differ in
the ratio (a clamped moving average over 1000, or a clamped timespan over the target
timespan) and in when they adjust; the rest is one computation.
-/
import QuantBTC.Pow.Difficulty

namespace QuantBTC.Pow

set_option autoImplicit false

open Consensus

structure AdjustParams (params : Params) : Prop where
  retargets : params.fPowNoRetargeting = false
  strict : params.fPowAllowMinDifficultyBlocks = false
  spacing : 0 < params.nDagTargetSpacingMs / 1000
  window : 4 ≤ params.nDagDiffWindowSize
  maxAdjust : params.nDagEmaMaxAdjust = 3000
  maxMultiplier : params.nLoadDiffMaxMultiplier = 4
  powLimit : params.powLimit < 2 ^ 236

theorem adjustParams_network (network : DagChain) : AdjustParams network.consensus := by
  cases network <;> constructor <;> decide

def withoutLoad (params : Params) : Params := { params with nLoadDiffBaseline := 0 }

theorem AdjustParams.withoutLoad {params : Params} (adjust : AdjustParams params) :
    AdjustParams (withoutLoad params) where
  retargets := adjust.retargets
  strict := adjust.strict
  spacing := adjust.spacing
  window := adjust.window
  maxAdjust := adjust.maxAdjust
  maxMultiplier := adjust.maxMultiplier
  powLimit := adjust.powLimit

/-! ## What the time ratio reads -/

theorem collectBlockTimes_times (limit : Nat) (entries : List BlockEntry) :
    collectBlockTimes limit ((entries.map (·.nTime)).map (⟨·, 0, 0⟩))
      = collectBlockTimes limit entries := by
  induction limit generalizing entries with
  | zero => simp only [collectBlockTimes]
  | succ limit ih =>
    match entries with
    | [] => rfl
    | [_] => rfl
    | cur :: pprev :: rest =>
      have later := ih (pprev :: rest)
      simp only [List.map_cons] at later ⊢
      simp only [collectBlockTimes, later]
      rfl

theorem collectBlockTimes_congr {a b : List BlockEntry}
    (times : a.map (·.nTime) = b.map (·.nTime)) (limit : Nat) :
    collectBlockTimes limit a = collectBlockTimes limit b := by
  rw [← collectBlockTimes_times limit a, times, collectBlockTimes_times]

theorem emaAdjustMilli_congr {a b : Chain}
    (times : a.entries.map (·.nTime) = b.entries.map (·.nTime)) (params : Params)
    (nTargetSpacing lookback : Nat) :
    emaAdjustMilli a params nTargetSpacing lookback
      = emaAdjustMilli b params nTargetSpacing lookback := by
  have heights : a.nHeight = b.nHeight := by
    have lengths := congrArg List.length times
    simpa [Chain.entries, Chain.nHeight] using lengths
  grind [computeBlockTimeEMA, collectBlockTimes_congr, emaAdjustMilli]

/-! ## The required bits -/

def Adjusts (params : Params) (nHeight : Nat) : Prop :=
  if params.fDagUseEma then max 4 params.nDagDiffWindowSize ≤ nHeight
  else params.nDagDiffWindowSize ≤ nHeight ∧ (nHeight + 1) % params.nDagDiffWindowSize = 0

instance (params : Params) (nHeight : Nat) : Decidable (Adjusts params nHeight) :=
  inferInstanceAs (Decidable (ite ..))

def timeTarget (params : Params) (pindexLast : Chain) : Nat :=
  let nTargetSpacing := params.nDagTargetSpacingMs / 1000
  if params.fDagUseEma then
    mul256 (setCompact pindexLast.last.nBits / 1000)
      (emaAdjustMilli pindexLast params nTargetSpacing
        (min params.nDagDiffWindowSize
          (pindexLast.nHeight - max 4 params.nDagDiffWindowSize))).toNat
  else
    let nTargetTimespan := params.nDagDiffWindowSize * nTargetSpacing
    match pindexLast.getAncestor
        ((pindexLast.nHeight : Int) - ((params.nDagDiffWindowSize : Int) - 1)) with
    | some pindexFirst =>
      scaleTarget (setCompact pindexLast.last.nBits)
        (clampTimespan (pindexLast.last.getBlockTime - pindexFirst.getBlockTime)
          nTargetTimespan) nTargetTimespan
    | none => 0

def unadjustedBits (params : Params) (pindexLast : Chain) : UInt32 :=
  if params.fDagUseEma ∨ pindexLast.nHeight < params.nDagDiffWindowSize then
    getCompact params.powLimit
  else pindexLast.last.nBits

def adjustLoadMult (params : Params) (pindexLast : Chain) : Option UInt64 :=
  if params.fDagUseEma then
    emaLoadMult pindexLast params (pindexLast.nHeight - max 4 params.nDagDiffWindowSize)
  else
    match pindexLast.getAncestor
        ((pindexLast.nHeight : Int) - ((params.nDagDiffWindowSize : Int) - 1)) with
    | some pindexFirst => windowModeLoadMult pindexLast.last pindexFirst params
    | none => none

def adjustedTarget (params : Params) (pindexLast : Chain) : Nat :=
  clipToLimit (applyLoadMult (timeTarget params pindexLast) (adjustLoadMult params pindexLast))
    params.powLimit

section

variable {params : Params}

theorem adjusts_ema (ema : params.fDagUseEma = true) (nHeight : Nat) :
    Adjusts params nHeight ↔ max 4 params.nDagDiffWindowSize ≤ nHeight := by
  rw [Adjusts, if_pos ema]

theorem adjusts_window (fixed : params.fDagUseEma = false) (nHeight : Nat) :
    Adjusts params nHeight ↔
      params.nDagDiffWindowSize ≤ nHeight ∧ (nHeight + 1) % params.nDagDiffWindowSize = 0 := by
  rw [Adjusts, if_neg (by rw [fixed]; decide)]

theorem nextWorkEma_eq (adjust : AdjustParams params) (ema : params.fDagUseEma = true)
    (chain : Chain) (nBlockTime : Int) :
    nextWorkEma chain nBlockTime params (params.nDagTargetSpacingMs / 1000)
      = if Adjusts params chain.nHeight then getCompact (adjustedTarget params chain)
        else unadjustedBits params chain := by
  unfold nextWorkEma
  rw [unadjustedBits, if_pos (Or.inl ema)]
  have adjusts := adjusts_ema ema chain.nHeight
  by_cases early : chain.nHeight < max 4 params.nDagDiffWindowSize
  · rw [if_pos early, if_neg (by rw [adjusts]; omega)]
  · rw [if_neg early, if_pos (adjusts.mpr (Nat.not_lt.mp early)), adjustedTarget, timeTarget, adjustLoadMult, if_pos ema,
      if_pos ema]
    simp only [adjust.strict, Bool.false_eq_true, false_and, if_false]

theorem Chain.getAncestor_isSome (pindexLast : Chain) {height : Int} (low : 0 ≤ height)
    (high : height ≤ pindexLast.nHeight) : ∃ entry, pindexLast.getAncestor height = some entry := by
  rw [getAncestor, if_neg (by omega)]
  have within : pindexLast.nHeight - height.toNat < pindexLast.entries.length := by
    simp only [entries, List.length_cons, nHeight]
    omega
  exact ⟨_, List.getElem?_eq_getElem within⟩

theorem exists_windowFirst (adjust : AdjustParams params) (chain : Chain)
    (late : params.nDagDiffWindowSize ≤ chain.nHeight) :
    ∃ first, chain.getAncestor
      ((chain.nHeight : Int) - ((params.nDagDiffWindowSize : Int) - 1)) = some first := by
  have size := adjust.window
  exact chain.getAncestor_isSome (by omega) (by omega)

theorem nextWorkWindow_eq (adjust : AdjustParams params) (fixed : params.fDagUseEma = false)
    (chain : Chain) (nBlockTime : Int) :
    nextWorkWindow chain nBlockTime params (params.nDagTargetSpacingMs / 1000)
      = some (if Adjusts params chain.nHeight then getCompact (adjustedTarget params chain)
        else unadjustedBits params chain) := by
  have mode : ¬params.fDagUseEma = true := by rw [fixed]; decide
  unfold nextWorkWindow
  rw [unadjustedBits]
  have adjusts := adjusts_window fixed chain.nHeight
  by_cases early : chain.nHeight < params.nDagDiffWindowSize
  · rw [if_pos early, if_neg (by rw [adjusts]; omega), if_pos (Or.inr early)]
  rw [if_neg early, if_neg (not_or.mpr ⟨mode, early⟩)]
  by_cases boundary : (chain.nHeight + 1) % params.nDagDiffWindowSize = 0
  · obtain ⟨first, found⟩ := exists_windowFirst adjust chain (Nat.not_lt.mp early)
    grind [adjustedTarget, timeTarget, adjustLoadMult, Option.bind_eq_bind, Option.bind_some]
  · rw [if_pos boundary, if_neg (fun both => boundary (adjusts.mp both).2)]
    simp only [adjust.strict, Bool.false_eq_true, false_and, if_false]

theorem getNextWorkRequiredDAG_eq (adjust : AdjustParams params) (chain : Chain)
    (nBlockTime : Int) :
    getNextWorkRequiredDAG chain nBlockTime params
      = some (if Adjusts params chain.nHeight then getCompact (adjustedTarget params chain)
        else unadjustedBits params chain) := by
  have spacing := adjust.spacing
  unfold getNextWorkRequiredDAG
  rw [if_neg (by rw [adjust.retargets]; decide)]
  rw [if_neg (by omega)]
  cases mode : params.fDagUseEma with
  | true => rw [if_pos rfl, nextWorkEma_eq adjust mode]
  | false => rw [if_neg (by decide), nextWorkWindow_eq adjust mode]

/-! ## The load multiplier -/

theorem loadMultScaled_bounds (avgTx baseline : UInt64) :
    65536 ≤ (loadMultScaled avgTx baseline 4).toNat ∧
      (loadMultScaled avgTx baseline 4).toNat ≤ 262144 := by
  simp only [loadMultScaled, show fpScale = 65536 from rfl]
  generalize integerSquareRoot _ = root
  by_cases small : root < 65536
  · rw [if_pos small]
    decide
  · rw [if_neg small]
    split
    · decide
    next high =>
      have top : (4 * 65536 : UInt64).toNat = 262144 := by decide
      rw [gt_iff_lt, UInt64.lt_iff_toNat_lt, top] at high
      exact ⟨UInt64.le_iff_toNat_le.mp (UInt64.not_lt.mp small), Nat.not_lt.mp high⟩

theorem windowLoadMult_bounds (maxMultiplier : params.nLoadDiffMaxMultiplier = 4)
    {txLast txFirst window loadMult : UInt64}
    (loaded : windowLoadMult params txLast txFirst window = some loadMult) :
    65536 ≤ loadMult.toNat ∧ loadMult.toNat ≤ 262144 := by
  unfold windowLoadMult at loaded
  rw [maxMultiplier] at loaded
  grind [loadMultScaled_bounds]

variable {chain : Chain}

/-- **A multiplier lies between one and four.** -/
theorem adjustLoadMult_bounds (adjust : AdjustParams params) {loadMult : UInt64}
    (loaded : adjustLoadMult params chain = some loadMult) :
    65536 ≤ loadMult.toNat ∧ loadMult.toNat ≤ 262144 := by
  unfold adjustLoadMult emaLoadMult windowModeLoadMult at loaded
  split at loaded
  · split at loaded
    · dsimp only at loaded
      split at loaded
      · exact windowLoadMult_bounds adjust.maxMultiplier loaded
      · cases loaded
    · cases loaded
  · split at loaded
    · split at loaded
      · exact windowLoadMult_bounds adjust.maxMultiplier loaded
      · cases loaded
    · cases loaded

def loadScale (params : Params) (pindexLast : Chain) : Nat :=
  ((adjustLoadMult params pindexLast).getD fpScale).toNat

theorem loadScale_bounds (adjust : AdjustParams params) (chain : Chain) :
    65536 ≤ loadScale params chain ∧ loadScale params chain ≤ 262144 := by
  unfold loadScale
  cases loaded : adjustLoadMult params chain with
  | none => decide
  | some loadMult => exact adjustLoadMult_bounds adjust loaded

theorem applyLoadMult_eq {bnNew : Nat} (fits : bnNew < 2 ^ 240) (loadMult : Option UInt64) :
    applyLoadMult bnNew loadMult = bnNew * 65536 / (loadMult.getD fpScale).toNat := by
  have scale : fpScale.toNat = 65536 := rfl
  cases loadMult with
  | none => rw [applyLoadMult, Option.getD_none, scale, Nat.mul_div_cancel _ (by omega)]
  | some loadMult =>
    rw [applyLoadMult, Option.getD_some, scale, mul256_of_lt (by omega)]

/-! ## The ratio of times -/

def timeRate (params : Params) (pindexLast : Chain) : Nat :=
  let nTargetSpacing := params.nDagTargetSpacingMs / 1000
  if params.fDagUseEma then
    (emaAdjustMilli pindexLast params nTargetSpacing
      (min params.nDagDiffWindowSize
        (pindexLast.nHeight - max 4 params.nDagDiffWindowSize))).toNat
  else
    match pindexLast.getAncestor
        ((pindexLast.nHeight : Int) - ((params.nDagDiffWindowSize : Int) - 1)) with
    | some pindexFirst =>
      (clampTimespan (pindexLast.last.getBlockTime - pindexFirst.getBlockTime)
        (params.nDagDiffWindowSize * nTargetSpacing)).toNat
    | none => 0

def timeUnit (params : Params) : Nat :=
  if params.fDagUseEma then 1000
  else params.nDagDiffWindowSize * (params.nDagTargetSpacingMs / 1000)

theorem timeUnit_pos (adjust : AdjustParams params) : 0 < timeUnit params := by
  unfold timeUnit
  split
  · omega
  · exact Nat.mul_pos (lt_of_lt_of_le (by omega) adjust.window) adjust.spacing

theorem emaAdjustMilli_bounds (maxAdjust : params.nDagEmaMaxAdjust = 3000) (chain : Chain)
    (nTargetSpacing lookback : Nat) :
    333 ≤ (emaAdjustMilli chain params nTargetSpacing lookback).toNat ∧
      (emaAdjustMilli chain params nTargetSpacing lookback).toNat ≤ 3000 := by
  have clamp : ∀ adjustMilli : UInt64,
      333 ≤ (let adjusted := if adjustMilli > 3000 then 3000 else adjustMilli
        if adjusted < 1000000 / 3000 then 1000000 / 3000 else adjusted).toNat ∧
      (let adjusted := if adjustMilli > 3000 then 3000 else adjustMilli
        if adjusted < 1000000 / 3000 then 1000000 / 3000 else adjusted).toNat ≤ 3000 := by
    intro adjustMilli
    have upper : (if adjustMilli > 3000 then 3000 else adjustMilli).toNat ≤ 3000 := by
      split
      · decide
      next below => exact UInt64.le_iff_toNat_le.mp (UInt64.not_lt.mp below)
    generalize (if adjustMilli > 3000 then 3000 else adjustMilli) = adjusted at upper
    dsimp only
    split
    · decide
    next low =>
      have least : (1000000 / 3000 : UInt64).toNat = 333 := by decide
      rw [UInt64.lt_iff_toNat_lt, least, Nat.not_lt] at low
      exact ⟨low, upper⟩
  unfold emaAdjustMilli
  rw [maxAdjust]
  exact clamp _

theorem scaleTarget_le (bn : Nat) (nActualTimespan : Int) (nTargetTimespan : Nat) :
    scaleTarget bn (clampTimespan nActualTimespan nTargetTimespan) nTargetTimespan ≤ bn * 4 := by
  have clamped : (UInt32.ofInt (clampTimespan nActualTimespan nTargetTimespan)).toNat
      ≤ nTargetTimespan * 4 := by grind [clampTimespan, UInt32.ofInt, UInt32.toNat_ofNat']
  unfold scaleTarget
  calc mul256 bn (UInt32.ofInt (clampTimespan nActualTimespan nTargetTimespan)).toNat
        / nTargetTimespan
      ≤ bn * (nTargetTimespan * 4) / nTargetTimespan := by
        apply Nat.div_le_div_right
        exact le_trans (Nat.mod_le _ _) (Nat.mul_le_mul_left bn clamped)
    _ ≤ bn * 4 := by
        rw [Nat.mul_comm nTargetTimespan, ← Nat.mul_assoc]
        exact Nat.div_le_of_le_mul (by rw [Nat.mul_comm])

theorem timeTarget_le (adjust : AdjustParams params) (pindexLast : Chain) :
    timeTarget params pindexLast ≤ setCompact pindexLast.last.nBits * 4 := by
  unfold timeTarget
  split
  · have upper := (emaAdjustMilli_bounds adjust.maxAdjust pindexLast
      (params.nDagTargetSpacingMs / 1000) (min params.nDagDiffWindowSize
        (pindexLast.nHeight - max 4 params.nDagDiffWindowSize))).2
    refine le_trans (Nat.mod_le _ _) (le_trans (Nat.mul_le_mul_left _ upper) ?_)
    omega
  · split
    · exact scaleTarget_le _ _ _
    · exact Nat.zero_le _


theorem adjustedTarget_eq (adjust : AdjustParams params)
    (target : setCompact chain.last.nBits ≤ params.powLimit) :
    adjustedTarget params chain
      = clipToLimit (timeTarget params chain * 65536 / loadScale params chain) params.powLimit := by
  have limit := adjust.powLimit
  have eased := timeTarget_le adjust chain
  rw [adjustedTarget, applyLoadMult_eq (by omega), loadScale]

theorem timeTarget_ema (adjust : AdjustParams params) (ema : params.fDagUseEma = true)
    (target : setCompact chain.last.nBits ≤ params.powLimit) :
    timeTarget params chain = setCompact chain.last.nBits / 1000 * timeRate params chain := by
  have limit := adjust.powLimit
  rw [timeTarget, timeRate, if_pos ema, if_pos ema]
  obtain ⟨-, upper⟩ := emaAdjustMilli_bounds adjust.maxAdjust chain
    (params.nDagTargetSpacingMs / 1000) (min params.nDagDiffWindowSize
      (chain.nHeight - max 4 params.nDagDiffWindowSize))
  apply mul256_of_lt
  refine lt_of_le_of_lt (Nat.mul_le_mul_left _ upper) ?_
  omega

theorem clampTimespan_bounds (nActualTimespan : Int) {nTargetTimespan : Nat}
    (quarter : 4 ≤ nTargetTimespan) :
    1 ≤ clampTimespan nActualTimespan nTargetTimespan ∧
      clampTimespan nActualTimespan nTargetTimespan ≤ ((nTargetTimespan * 4 : Nat) : Int) := by
  unfold clampTimespan
  dsimp only
  split <;> split <;> omega

theorem timeTarget_window (adjust : AdjustParams params) (fixed : params.fDagUseEma = false)
    (short : timeUnit params < 2 ^ 14) (target : setCompact chain.last.nBits ≤ params.powLimit) :
    timeTarget params chain
      = setCompact chain.last.nBits * timeRate params chain / timeUnit params := by
  have limit := adjust.powLimit
  have mode : ¬params.fDagUseEma = true := by rw [fixed]; decide
  have whole : 4 ≤ params.nDagDiffWindowSize * (params.nDagTargetSpacingMs / 1000) :=
    le_trans adjust.window (Nat.le_mul_of_pos_right _ adjust.spacing)
  rw [timeUnit, if_neg mode] at short
  rw [timeTarget, timeRate, timeUnit, if_neg mode, if_neg mode, if_neg mode]
  cases chain.getAncestor ((chain.nHeight : Int) - ((params.nDagDiffWindowSize : Int) - 1)) with
  | none => rw [Nat.mul_zero, Nat.zero_div]
  | some first =>
    dsimp only
    obtain ⟨low, high⟩ := clampTimespan_bounds
      (chain.last.getBlockTime - first.getBlockTime) whole
    generalize clampTimespan (chain.last.getBlockTime - first.getBlockTime)
      (params.nDagDiffWindowSize * (params.nDagTargetSpacingMs / 1000)) = timespan at low high ⊢
    have word : (UInt32.ofInt timespan).toNat = timespan.toNat := by
      rw [UInt32.ofInt, UInt32.toNat_ofNat']
      omega
    have fits : setCompact chain.last.nBits * timespan.toNat < 2 ^ 256 :=
      lt_of_le_of_lt (Nat.mul_le_mul_left _ (show timespan.toNat ≤ 2 ^ 16 by omega)) (by omega)
    rw [scaleTarget, word, mul256_of_lt fits]

theorem timeRate_congr (params : Params) {a b : Chain}
    (times : a.entries.map (·.nTime) = b.entries.map (·.nTime)) :
    timeRate params a = timeRate params b := by
  have heights : a.nHeight = b.nHeight := by
    have lengths := congrArg List.length times
    simpa [Chain.entries, Chain.nHeight] using lengths
  have ancestor : ∀ height, (a.getAncestor height).map (·.nTime)
      = (b.getAncestor height).map (·.nTime) := by
    intro height
    unfold Chain.getAncestor
    rw [heights]
    split
    · rfl
    · rw [← List.getElem?_map, ← List.getElem?_map, times]
  have last : a.last.nTime = b.last.nTime := (List.cons.inj times).1
  unfold timeRate
  dsimp only
  rw [heights, emaAdjustMilli_congr times]
  have first := ancestor ((b.nHeight : Int) - ((params.nDagDiffWindowSize : Int) - 1))
  split
  · rfl
  · generalize a.getAncestor _ = x at first
    generalize b.getAncestor _ = y at first
    cases x <;> cases y
    · rfl
    · cases first
    · cases first
    · have same := Option.some.inj first
      simp only [BlockEntry.getBlockTime, last, same]

theorem timeRate_pos (adjust : AdjustParams params) (adjusts : Adjusts params chain.nHeight) :
    0 < timeRate params chain := by
  unfold timeRate
  cases mode : params.fDagUseEma with
  | true =>
    rw [if_pos rfl]
    exact lt_of_lt_of_le (by decide) (emaAdjustMilli_bounds adjust.maxAdjust chain _ _).1
  | false =>
    have late := ((adjusts_window mode _).mp adjusts).1
    obtain ⟨first, found⟩ := exists_windowFirst adjust chain late
    have whole : 4 ≤ params.nDagDiffWindowSize * (params.nDagTargetSpacingMs / 1000) :=
      le_trans adjust.window (Nat.le_mul_of_pos_right _ adjust.spacing)
    have low := (clampTimespan_bounds (chain.last.getBlockTime - first.getBlockTime) whole).1
    rw [if_neg (by decide), found]
    dsimp only
    omega

theorem timeTarget_mul_le (adjust : AdjustParams params) (short : timeUnit params < 2 ^ 14)
    (target : setCompact chain.last.nBits ≤ params.powLimit) :
    timeTarget params chain * timeUnit params
      ≤ setCompact chain.last.nBits * timeRate params chain := by
  cases mode : params.fDagUseEma with
  | true =>
    rw [timeTarget_ema adjust mode target, timeUnit, if_pos mode, Nat.mul_right_comm]
    exact Nat.mul_le_mul_right _ (Nat.div_mul_le_self _ _)
  | false =>
    rw [timeTarget_window adjust mode short target]
    exact Nat.div_mul_le_self _ _

theorem lt_timeTarget_mul (adjust : AdjustParams params) (short : timeUnit params < 2 ^ 14)
    (adjusts : Adjusts params chain.nHeight)
    (target : setCompact chain.last.nBits ≤ params.powLimit) :
    setCompact chain.last.nBits * timeRate params chain
      ≤ (timeTarget params chain + timeRate params chain) * timeUnit params := by
  have positive := timeRate_pos adjust adjusts
  cases mode : params.fDagUseEma with
  | true =>
    have rounded : setCompact chain.last.nBits
        ≤ (setCompact chain.last.nBits / 1000 + 1) * 1000 := by omega
    rw [timeTarget_ema adjust mode target, timeUnit, if_pos mode, ← Nat.succ_mul,
      Nat.mul_right_comm]
    exact Nat.mul_le_mul_right _ rounded
  | false =>
    rw [timeTarget_window adjust mode short target]
    have next_ := Nat.lt_div_mul_add (a := setCompact chain.last.nBits * timeRate params chain)
      (timeUnit_pos adjust)
    calc setCompact chain.last.nBits * timeRate params chain
        ≤ (setCompact chain.last.nBits * timeRate params chain / timeUnit params + 1)
            * timeUnit params := by rw [Nat.succ_mul]; exact le_of_lt next_
      _ ≤ _ := Nat.mul_le_mul_right _ (by omega)

end

end QuantBTC.Pow
