/-
# Pow.Exact -- the difficulty formula over unbounded integers

`GetNextWorkRequiredDAG` computes with `uint64_t`, `int64_t` and `arith_uint256`.  This module
writes the same formula with natural numbers that have no size, and shows that the code's
result is the formula's (`getNextWorkRequiredDAG_exact`) for the public chains: block times of
32 bits keep the moving averages inside 64 bits, since each average lies between the samples
(`exactEmaStep_le`), and a target below the limit leaves 20 bits for its factors.

`exactSampleTimes` and `exactTxCount` are all that the formula reads of a chain besides its
height and its last target.
-/
import QuantBTC.Pow.Adjustment
import QuantBTC.Pow.Load

namespace QuantBTC.Pow

set_option autoImplicit false

open Consensus

/-! ## The formula -/

def exactCompact (nCompact : UInt32) : Nat :=
  let nSize := nCompact.toNat >>> 24
  let nWord := nCompact.toNat &&& 0x007fffff
  if nSize ≤ 3 then nWord >>> (8 * (3 - nSize)) else nWord <<< (8 * (nSize - 3))

def exactSampleTimes (pindexLast : Chain) (maxLookback : Nat) : List Int :=
  collectBlockTimes (min maxLookback pindexLast.nHeight) pindexLast.entries

def exactEmaStep (alphaFp oneMinusAlpha : Nat) (blockTime : Int) (emaFp : Nat) : Nat :=
  (alphaFp * (blockTime.toNat * 65536) + oneMinusAlpha * emaFp) / 65536

def exactAlpha (halfLife : Nat) : Nat := max 1 (45426 / max 1 halfLife)

def exactEma (halfLife : Nat) (blockTimes : List Int) : Nat :=
  match blockTimes.getLast? with
  | none => 10 * 65536
  | some oldest =>
    blockTimes.foldr (exactEmaStep (exactAlpha halfLife) (65536 - exactAlpha halfLife))
      (oldest.toNat * 65536)

def exactAdjustMilli (params : Params) (nTargetSpacing : Nat) (blockTimes : List Int) : Nat :=
  let fastEmaFp := exactEma params.nDagEmaFastHalfLife blockTimes
  let slowEmaFp := exactEma params.nDagEmaSlowHalfLife blockTimes
  let blendedFp := (fastEmaFp * 7 + slowEmaFp * 3) / 10
  let targetFp := nTargetSpacing * 65536
  let blendedFp := if blendedFp = 0 then 1 else blendedFp
  let targetFp := if targetFp = 0 then 65536 else targetFp
  let adjustMilli := blendedFp * 1000 / targetFp
  let maxAdj := params.nDagEmaMaxAdjust
  let minAdj := 1000000 / maxAdj
  let adjustMilli := if adjustMilli > maxAdj then maxAdj else adjustMilli
  if adjustMilli < minAdj then minAdj else adjustMilli

def exactLoadMult (avgTx baseline maxMult : Nat) : Nat :=
  let cappedAvgTx := min avgTx (baseline * maxMult * maxMult)
  let loadMult := Nat.sqrt (cappedAvgTx * 65536 * 65536 / baseline)
  let loadMult := if loadMult < 65536 then 65536 else loadMult
  if loadMult > maxMult * 65536 then maxMult * 65536 else loadMult

def exactWindowLoadMult (params : Params) (txCount window : Nat) : Option Nat :=
  if txCount > 0 then
    let avgTx := txCount / window
    if avgTx > 0 ∧ avgTx > params.nLoadDiffBaseline then
      some (exactLoadMult avgTx params.nLoadDiffBaseline params.nLoadDiffMaxMultiplier)
    else none
  else none

def exactTxCount (last first : BlockEntry) : Nat :=
  last.mChainTxCount.toNat - first.mChainTxCount.toNat

def exactApplyLoadMult (bnNew : Nat) : Option Nat → Nat
  | some loadMult => bnNew * 65536 / loadMult
  | none => bnNew

def exactEmaLoadMult (pindexLast : Chain) (params : Params) (postActivation : Nat) : Option Nat :=
  if params.nLoadDiffBaseline > 0 ∧ params.nLoadDiffMaxMultiplier > 1 ∧
      pindexLast.ancestors ≠ [] then
    let loadWindow := min (params.nDagEmaSlowHalfLife * 2) postActivation
    match pindexLast.getAncestor ((pindexLast.nHeight : Int) - loadWindow) with
    | some pOlder => exactWindowLoadMult params (exactTxCount pindexLast.last pOlder) loadWindow
    | none => none
  else none

def exactNextWorkEma (pindexLast : Chain) (nBlockTime : Int) (params : Params)
    (nTargetSpacing : Nat) : UInt32 :=
  let nProofOfWorkLimit := getCompact params.powLimit
  let emaActivation := max 4 params.nDagDiffWindowSize
  if pindexLast.nHeight < emaActivation then nProofOfWorkLimit
  else if params.fPowAllowMinDifficultyBlocks ∧
      nBlockTime > pindexLast.last.getBlockTime + nTargetSpacing * 4 then nProofOfWorkLimit
  else
    let postActivation := pindexLast.nHeight - emaActivation
    let effectiveLookback := min params.nDagDiffWindowSize postActivation
    let adjustMilli := exactAdjustMilli params nTargetSpacing
      (exactSampleTimes pindexLast effectiveLookback)
    let bnNew := exactCompact pindexLast.last.nBits / 1000 * adjustMilli
    let bnNew := exactApplyLoadMult bnNew (exactEmaLoadMult pindexLast params postActivation)
    getCompact (clipToLimit bnNew params.powLimit)

def exactWindowModeLoadMult (last first : BlockEntry) (params : Params) : Option Nat :=
  if params.nLoadDiffBaseline > 0 ∧ params.nLoadDiffMaxMultiplier > 1 then
    exactWindowLoadMult params (exactTxCount last first) (params.nDagDiffWindowSize - 1)
  else none

def exactNextWorkWindow (pindexLast : Chain) (nBlockTime : Int) (params : Params)
    (nTargetSpacing : Nat) : Option UInt32 :=
  let nProofOfWorkLimit := getCompact params.powLimit
  let nWindow := params.nDagDiffWindowSize
  if pindexLast.nHeight < nWindow then some nProofOfWorkLimit
  else
    let nTargetTimespan := nWindow * nTargetSpacing
    if (pindexLast.nHeight + 1) % nWindow ≠ 0 then
      if params.fPowAllowMinDifficultyBlocks ∧
          nBlockTime > pindexLast.last.getBlockTime + nTargetSpacing * 2 then some nProofOfWorkLimit
      else some pindexLast.last.nBits
    else do
      let pindexFirst ← pindexLast.getAncestor ((pindexLast.nHeight : Int) - ((nWindow : Int) - 1))
      let nActualTimespan := clampTimespan
        (pindexLast.last.getBlockTime - pindexFirst.getBlockTime) nTargetTimespan
      let bnNew := exactCompact pindexLast.last.nBits * nActualTimespan.toNat / nTargetTimespan
      let bnNew := exactApplyLoadMult bnNew
        (exactWindowModeLoadMult pindexLast.last pindexFirst params)
      some (getCompact (clipToLimit bnNew params.powLimit))

def exactNextWorkRequiredDAG (pindexLast : Chain) (nBlockTime : Int) (params : Params) :
    Option UInt32 :=
  if params.fPowNoRetargeting then some pindexLast.last.nBits
  else
    let nTargetSpacing := params.nDagTargetSpacingMs / 1000
    if nTargetSpacing ≤ 0 then some pindexLast.last.nBits
    else if params.fDagUseEma then some (exactNextWorkEma pindexLast nBlockTime params nTargetSpacing)
    else exactNextWorkWindow pindexLast nBlockTime params nTargetSpacing

structure ExactParams (params : Params) : Prop extends AdjustParams params where
  fastHalfLife : params.nDagEmaFastHalfLife < 2 ^ 32
  slowHalfLife : params.nDagEmaSlowHalfLife < 2 ^ 32
  shortSpacing : params.nDagTargetSpacingMs / 1000 < 2 ^ 16
  timespan : params.nDagDiffWindowSize * (params.nDagTargetSpacingMs / 1000) * 4 < 2 ^ 16
  windowSize : params.nDagDiffWindowSize < 2 ^ 16
  baseline : params.nLoadDiffBaseline = 200

theorem exactParams_network (network : DagChain) : ExactParams network.consensus := by
  refine ⟨adjustParams_network network, ?_, ?_, ?_, ?_, ?_, ?_⟩ <;> cases network <;> decide

variable {params : Params}

/-! ## Moving averages -/

def emaTop : Nat := (2 ^ 32 - 1) * 65536

variable {blockTime : Int}

theorem sampleTimes_bounds {limit : Nat} {entries : List BlockEntry}
    (sampled : blockTime ∈ collectBlockTimes limit entries) :
    1 ≤ blockTime ∧ blockTime < 2 ^ 32 := by
  induction limit generalizing entries with
  | zero => simp [collectBlockTimes] at sampled
  | succ limit ih =>
    rcases entries with _ | ⟨cur, _ | ⟨pprev, rest⟩⟩
    · simp [collectBlockTimes] at sampled
    · simp [collectBlockTimes] at sampled
    · rw [collectBlockTimes, List.mem_cons] at sampled
      rcases sampled with rfl | older
      · have curTime := cur.nTime.toNat_lt
        grind [BlockEntry.getBlockTime]
      · exact ih older

theorem exactAlpha_bounds (halfLife : Nat) : 1 ≤ exactAlpha halfLife ∧ exactAlpha halfLife ≤ 45426 := by
  have quotient := Nat.div_le_self 45426 (max 1 halfLife)
  unfold exactAlpha
  omega

theorem exactEmaStep_le {alphaFp oneMinusAlpha emaFp : Nat}
    (weights : alphaFp + oneMinusAlpha = 65536) (sample : blockTime < 2 ^ 32)
    (average : emaFp ≤ emaTop) :
    alphaFp * (blockTime.toNat * 65536) + oneMinusAlpha * emaFp < 2 ^ 64 ∧
      exactEmaStep alphaFp oneMinusAlpha blockTime emaFp ≤ emaTop := by
  have sampleTop : blockTime.toNat * 65536 ≤ emaTop := by
    unfold emaTop
    omega
  have total : alphaFp * (blockTime.toNat * 65536) + oneMinusAlpha * emaFp ≤ 65536 * emaTop := by
    calc alphaFp * (blockTime.toNat * 65536) + oneMinusAlpha * emaFp
        ≤ alphaFp * emaTop + oneMinusAlpha * emaTop :=
          Nat.add_le_add (Nat.mul_le_mul_left _ sampleTop) (Nat.mul_le_mul_left _ average)
      _ = 65536 * emaTop := by rw [← Nat.add_mul, weights]
  constructor
  · exact lt_of_le_of_lt total (by decide)
  · exact Nat.div_le_of_le_mul total

theorem toNat_sampleFp (low : 1 ≤ blockTime) (high : blockTime < 2 ^ 32) :
    (UInt64.ofInt blockTime * fpScale).toNat = blockTime.toNat * 65536 := by
  have word : (UInt64.ofInt blockTime).toNat = blockTime.toNat := by
    rw [UInt64.ofInt, UInt64.toNat_ofNat']
    omega
  rw [UInt64.toNat_mul, word, show fpScale.toNat = 65536 from rfl]
  omega

theorem toNat_emaStep {alphaFp oneMinusAlpha emaFp : UInt64}
    (weights : alphaFp.toNat + oneMinusAlpha.toNat = 65536) (low : 1 ≤ blockTime)
    (high : blockTime < 2 ^ 32) (average : emaFp.toNat ≤ emaTop) :
    (emaStep alphaFp oneMinusAlpha blockTime emaFp).toNat
      = exactEmaStep alphaFp.toNat oneMinusAlpha.toNat blockTime emaFp.toNat := by
  have fits := (exactEmaStep_le weights high average).1
  have first : (alphaFp * (UInt64.ofInt blockTime * fpScale)).toNat
      = alphaFp.toNat * (blockTime.toNat * 65536) := by
    rw [UInt64.toNat_mul, toNat_sampleFp low high, Nat.mod_eq_of_lt (by omega)]
  have second : (oneMinusAlpha * emaFp).toNat = oneMinusAlpha.toNat * emaFp.toNat := by
    rw [UInt64.toNat_mul, Nat.mod_eq_of_lt (by omega)]
  rw [emaStep, UInt64.toNat_div, UInt64.toNat_add, first, second, Nat.mod_eq_of_lt fits]
  rfl

theorem toNat_emaFold {alphaFp oneMinusAlpha seed : UInt64} {blockTimes : List Int}
    (weights : alphaFp.toNat + oneMinusAlpha.toNat = 65536)
    (samples : ∀ blockTime ∈ blockTimes, 1 ≤ blockTime ∧ blockTime < 2 ^ 32)
    (average : seed.toNat ≤ emaTop) :
    (blockTimes.foldr (emaStep alphaFp oneMinusAlpha) seed).toNat
        = blockTimes.foldr (exactEmaStep alphaFp.toNat oneMinusAlpha.toNat) seed.toNat ∧
      blockTimes.foldr (exactEmaStep alphaFp.toNat oneMinusAlpha.toNat) seed.toNat ≤ emaTop := by
  induction blockTimes with
  | nil => exact ⟨rfl, average⟩
  | cons blockTime older ih =>
    obtain ⟨low, high⟩ := samples blockTime List.mem_cons_self
    obtain ⟨same, below⟩ := ih fun sample listed => samples sample (List.mem_cons_of_mem _ listed)
    rw [List.foldr_cons, List.foldr_cons, toNat_emaStep weights low high (same ▸ below), same]
    exact ⟨rfl, (exactEmaStep_le weights high below).2⟩

variable {halfLife : Nat}

theorem toNat_alphaFp (small : halfLife < 2 ^ 64) :
    (max 1 (45426 / UInt64.ofNat (max 1 halfLife)) : UInt64).toNat = exactAlpha halfLife := by
  have quotient : (45426 / UInt64.ofNat (max 1 halfLife)).toNat = 45426 / max 1 halfLife := by
    rw [UInt64.toNat_div, UInt64.toNat_ofNat', Nat.mod_eq_of_lt (by omega)]
    rfl
  rw [exactAlpha, ← quotient]
  generalize 45426 / UInt64.ofNat (max 1 halfLife) = alpha
  rw [show max 1 alpha = if 1 ≤ alpha then alpha else 1 from rfl]
  split
  all_goals grind [UInt64.le_iff_toNat_le, Nat.max_eq_right, Nat.max_eq_left]

theorem toNat_oneMinusAlpha {alphaFp : UInt64} (alpha : alphaFp.toNat = exactAlpha halfLife) :
    (fpScale - alphaFp).toNat = 65536 - exactAlpha halfLife := by
  have bounds := exactAlpha_bounds halfLife
  rw [UInt64.toNat_sub_of_le, alpha]
  · rfl
  · rw [UInt64.le_iff_toNat_le, alpha, show fpScale.toNat = 65536 from rfl]
    omega

/-- **No sum of `ComputeBlockTimeEMA` wraps.** -/
theorem computeBlockTimeEMA_exact (small : halfLife < 2 ^ 64) (chain : Chain) (maxLookback : Nat) :
    (computeBlockTimeEMA chain halfLife maxLookback).toNat
        = exactEma halfLife (exactSampleTimes chain maxLookback) ∧
      exactEma halfLife (exactSampleTimes chain maxLookback) ≤ emaTop := by
  have samples : ∀ blockTime ∈ exactSampleTimes chain maxLookback,
      1 ≤ blockTime ∧ blockTime < 2 ^ 32 := fun _ sampled => sampleTimes_bounds sampled
  have alpha := toNat_alphaFp small
  have rest := toNat_oneMinusAlpha alpha
  have weights := Nat.add_sub_of_le (le_trans (exactAlpha_bounds halfLife).2 (show _ ≤ 65536 by omega))
  unfold computeBlockTimeEMA exactEma
  simp only [show collectBlockTimes (min maxLookback chain.nHeight) chain.entries
    = exactSampleTimes chain maxLookback from rfl]
  generalize exactSampleTimes chain maxLookback = blockTimes at samples ⊢
  generalize (max 1 (45426 / UInt64.ofNat (max 1 halfLife)) : UInt64) = alphaFp at alpha rest ⊢
  rw [← rest, ← alpha] at weights
  cases newest : blockTimes.getLast? with
  | none => exact ⟨rfl, show 10 * 65536 ≤ emaTop by decide⟩
  | some oldest =>
    obtain ⟨low, high⟩ := samples oldest (List.mem_of_getLast? newest)
    have seed := toNat_sampleFp low high
    have start : (UInt64.ofInt oldest * fpScale).toNat ≤ emaTop := by
      rw [seed, emaTop]
      omega
    have folded := toNat_emaFold weights samples start
    rw [alpha, rest, seed] at folded
    exact folded

theorem le_exactEmaStep {alphaFp oneMinusAlpha emaFp low : Nat}
    (weights : alphaFp + oneMinusAlpha = 65536) (sample : low ≤ blockTime.toNat)
    (average : low * 65536 ≤ emaFp) :
    low * 65536 ≤ exactEmaStep alphaFp oneMinusAlpha blockTime emaFp := by
  rw [exactEmaStep, Nat.le_div_iff_mul_le (by decide)]
  calc low * 65536 * 65536
      = alphaFp * (low * 65536) + oneMinusAlpha * (low * 65536) := by
        rw [← Nat.add_mul, weights, Nat.mul_comm]
    _ ≤ alphaFp * (blockTime.toNat * 65536) + oneMinusAlpha * emaFp :=
        Nat.add_le_add (Nat.mul_le_mul_left _ (Nat.mul_le_mul_right _ sample))
          (Nat.mul_le_mul_left _ average)

theorem exactEmaStep_le_of_le {alphaFp oneMinusAlpha emaFp high : Nat}
    (weights : alphaFp + oneMinusAlpha = 65536) (sample : blockTime.toNat ≤ high)
    (average : emaFp ≤ high * 65536) :
    exactEmaStep alphaFp oneMinusAlpha blockTime emaFp ≤ high * 65536 := by
  rw [exactEmaStep]
  refine Nat.div_le_of_le_mul ?_
  calc alphaFp * (blockTime.toNat * 65536) + oneMinusAlpha * emaFp
      ≤ alphaFp * (high * 65536) + oneMinusAlpha * (high * 65536) :=
        Nat.add_le_add (Nat.mul_le_mul_left _ (Nat.mul_le_mul_right _ sample))
          (Nat.mul_le_mul_left _ average)
    _ = 65536 * (high * 65536) := by rw [← Nat.add_mul, weights]

theorem exactEma_induction {blockTimes : List Int} {P : Nat → Prop} (sampled : blockTimes ≠ [])
    (seed : ∀ blockTime ∈ blockTimes, P (blockTime.toNat * 65536)) (step : ∀ blockTime ∈ blockTimes,
      ∀ emaFp, P emaFp → P (exactEmaStep (exactAlpha halfLife) (65536 - exactAlpha halfLife)
      blockTime emaFp)) : P (exactEma halfLife blockTimes) := by
  have oldest := seed _ (List.getLast_mem sampled)
  rw [exactEma, List.getLast?_eq_some_getLast sampled]
  exact List.foldrRecOn blockTimes _ oldest
    fun emaFp average blockTime listed => step blockTime listed emaFp average

/-- **The moving average is a mean of its samples**, exactly and for every window.  A negative
half-life counts as one; a look-back that is not positive samples nothing, and below zero the
source's `reserve` throws. -/
theorem computeBlockTimeEMA_mean (chain : Chain) (halfLife maxLookback : Int64)
    (sampled : exactSampleTimes chain maxLookback.toInt.toNat ≠ []) :
    (∀ low, (∀ sample ∈ exactSampleTimes chain maxLookback.toInt.toNat, low ≤ sample) →
        65536 * low ≤
          ((computeBlockTimeEMA chain halfLife.toInt.toNat maxLookback.toInt.toNat).toNat : Int)) ∧
      (∀ high, (∀ sample ∈ exactSampleTimes chain maxLookback.toInt.toNat, sample ≤ high) →
        ((computeBlockTimeEMA chain halfLife.toInt.toNat maxLookback.toInt.toNat).toNat : Int)
          ≤ 65536 * high) ∧
      ∀ d, (∀ sample ∈ exactSampleTimes chain maxLookback.toInt.toNat, sample = d) →
        ((computeBlockTimeEMA chain halfLife.toInt.toNat maxLookback.toInt.toNat).toNat : Int)
          = 65536 * d := by
  have small : halfLife.toInt.toNat < 2 ^ 64 := by
    have := Int64.toInt_lt halfLife
    omega
  rw [(computeBlockTimeEMA_exact small chain maxLookback.toInt.toNat).1]
  have positive : ∀ sample ∈ exactSampleTimes chain maxLookback.toInt.toNat, 1 ≤ sample :=
    fun _ listed => (sampleTimes_bounds listed).1
  generalize exactSampleTimes chain maxLookback.toInt.toNat = samples at sampled positive ⊢
  have weights := Nat.add_sub_of_le
    (le_trans (exactAlpha_bounds halfLife.toInt.toNat).2 (show _ ≤ 65536 by omega))
  have lower : ∀ low, (∀ sample ∈ samples, low ≤ sample) →
      65536 * low ≤ (exactEma halfLife.toInt.toNat samples : Int) := by
    intro low below
    have bound : low.toNat * 65536 ≤ exactEma halfLife.toInt.toNat samples := by
      refine exactEma_induction sampled ?_ ?_
      · intro sample listed
        exact Nat.mul_le_mul_right _ (Int.toNat_le_toNat (below sample listed))
      · intro sample listed emaFp average
        exact le_exactEmaStep weights (Int.toNat_le_toNat (below sample listed)) average
    omega
  have upper : ∀ high, (∀ sample ∈ samples, sample ≤ high) →
      (exactEma halfLife.toInt.toNat samples : Int) ≤ 65536 * high := by
    intro high above
    have bound : exactEma halfLife.toInt.toNat samples ≤ high.toNat * 65536 := by
      refine exactEma_induction (P := (· ≤ high.toNat * 65536)) sampled ?_ ?_
      · intro sample listed
        exact Nat.mul_le_mul_right _ (Int.toNat_le_toNat (above sample listed))
      · intro sample listed emaFp average
        exact exactEmaStep_le_of_le weights (Int.toNat_le_toNat (above sample listed)) average
    have least := positive _ (List.getLast_mem sampled)
    have most := above _ (List.getLast_mem sampled)
    omega
  refine ⟨lower, upper, fun d same => le_antisymm ?_ ?_⟩
  · exact upper d fun sample listed => (same sample listed).le
  · exact lower d fun sample listed => (same sample listed).ge

/-- Blocks 7 and 25 seconds apart: the average lies in between, and is not a whole second. -/
theorem computeBlockTimeEMA_mean_sample :
    let chain : Chain := ⟨⟨1032, 0, 0⟩, [⟨1025, 0, 0⟩, ⟨1000, 0, 0⟩]⟩
    exactSampleTimes chain 20 = [7, 25] ∧
      65536 * 7 ≤ ((computeBlockTimeEMA chain 3 20).toNat : Int) ∧
      ((computeBlockTimeEMA chain 3 20).toNat : Int) ≤ 65536 * 25 := by
  have mean := computeBlockTimeEMA_mean ⟨⟨1032, 0, 0⟩, [⟨1025, 0, 0⟩, ⟨1000, 0, 0⟩]⟩ 3 20 (by decide)
  exact ⟨by decide, mean.1 7 (by decide), mean.2.1 25 (by decide)⟩

/-! ## The adjustment -/

theorem emaAdjustMilli_exact (exact_ : ExactParams params) (chain : Chain) (lookback : Nat) :
    (emaAdjustMilli chain params (params.nDagTargetSpacingMs / 1000) lookback).toNat
      = exactAdjustMilli params (params.nDagTargetSpacingMs / 1000)
          (exactSampleTimes chain lookback) := by
  obtain ⟨fast, fastTop⟩ := computeBlockTimeEMA_exact
    (exact_.fastHalfLife.trans (by decide)) chain lookback
  obtain ⟨slow, slowTop⟩ := computeBlockTimeEMA_exact
    (exact_.slowHalfLife.trans (by decide)) chain lookback
  have spacing := exact_.shortSpacing
  unfold emaAdjustMilli exactAdjustMilli
  rw [exact_.maxAdjust, ← fast, ← slow]
  rw [← fast] at fastTop
  rw [← slow] at slowTop
  generalize computeBlockTimeEMA chain params.nDagEmaFastHalfLife lookback = fastFp at fastTop ⊢
  generalize computeBlockTimeEMA chain params.nDagEmaSlowHalfLife lookback = slowFp at slowTop ⊢
  generalize params.nDagTargetSpacingMs / 1000 = nTargetSpacing at spacing ⊢
  have top : emaTop = 281474976645120 := by decide
  have blended : ((fastFp * 7 + slowFp * 3) / 10).toNat
      = (fastFp.toNat * 7 + slowFp.toNat * 3) / 10 := by
    rw [UInt64.toNat_div, UInt64.toNat_add, UInt64.toNat_mul, UInt64.toNat_mul]
    grind
  have target : (UInt64.ofNat nTargetSpacing * fpScale).toNat = nTargetSpacing * 65536 := by
    rw [UInt64.toNat_mul, UInt64.toNat_ofNat', show fpScale.toNat = 65536 from rfl]
    omega
  have zero : ∀ (a : UInt64) (n : Nat) (b : UInt64), a.toNat = n →
      (if a = 0 then b else a).toNat = if n = 0 then b.toNat else n := by
    rintro a _ b rfl
    have : a = 0 ↔ a.toNat = 0 := UInt64.toNat_inj.symm
    simp only [this]
    split <;> rfl
  have blendedOr := zero _ _ 1 blended
  have targetOr := zero _ _ fpScale target
  simp only [show fpScale.toNat = 65536 from rfl, show (1 : UInt64).toNat = 1 from rfl]
    at blendedOr targetOr
  dsimp only
  generalize (if (fastFp * 7 + slowFp * 3) / 10 = 0 then 1 else (fastFp * 7 + slowFp * 3) / 10)
    = blendedFp at blendedOr ⊢
  generalize (if UInt64.ofNat nTargetSpacing * fpScale = 0 then fpScale
    else UInt64.ofNat nTargetSpacing * fpScale) = targetFp at targetOr ⊢
  have adjusted : (blendedFp * 1000 / targetFp).toNat
      = blendedFp.toNat * 1000 / targetFp.toNat := by
    rw [UInt64.toNat_div, UInt64.toNat_mul, show (1000 : UInt64).toNat = 1000 from rfl,
      Nat.mod_eq_of_lt]
    rw [blendedOr]
    split <;> omega
  rw [← blendedOr, ← targetOr, ← adjusted]
  generalize blendedFp * 1000 / targetFp = adjustMilli
  have least : (1000000 / UInt64.ofNat 3000).toNat = 1000000 / 3000 := by decide
  simp [apply_ite UInt64.toNat, gt_iff_lt, UInt64.lt_iff_toNat_lt]

/-! ## The load multiplier -/

theorem exactLoadMult_eq {avgTx : Nat} (loaded : 200 < avgTx) :
    exactLoadMult avgTx 200 4 = Nat.sqrt (min avgTx 3200 * 2 ^ 32 / 200) := by
  have low : 65536 ≤ Nat.sqrt (min avgTx 3200 * 2 ^ 32 / 200) := by
    rw [Nat.le_sqrt]
    omega
  have high : Nat.sqrt (min avgTx 3200 * 2 ^ 32 / 200) ≤ 262144 := by
    rw [← Nat.lt_succ_iff, Nat.sqrt_lt]
    omega
  grind [exactLoadMult]

theorem windowLoadMult_exact (exact_ : ExactParams params) {last first : BlockEntry} {window : Nat}
    (counted : last.mChainTxCount.toNat < 2 ^ 63) (short : window < 2 ^ 64) :
    (windowLoadMult params last.mChainTxCount first.mChainTxCount (UInt64.ofNat window)).map
        UInt64.toNat
      = exactWindowLoadMult params (exactTxCount last first) window := by
  have few : exactTxCount last first / window < 2 ^ 63 := by
    refine lt_of_le_of_lt (Nat.div_le_self _ _) (lt_of_le_of_lt (Nat.sub_le _ _) counted)
  rw [windowLoadMult_eq (show exactTxCount last first = _ from rfl) few short
      (by rw [exact_.baseline]; decide), exact_.baseline, exact_.maxMultiplier, exactWindowLoadMult, exact_.baseline, exact_.maxMultiplier]
  generalize exactTxCount last first = txCount at few ⊢
  by_cases loaded : 200 < txCount / window
  · have some_ : 0 < txCount := by
      by_contra none_
      rw [Nat.eq_zero_of_not_pos none_, Nat.zero_div] at loaded
      omega
    have word : (UInt64.ofNat (txCount / window)).toNat = txCount / window := by
      rw [UInt64.toNat_ofNat', Nat.mod_eq_of_lt (by omega)]
    have above : 200 < UInt64.ofNat (txCount / window) := by
      rwa [UInt64.lt_iff_toNat_lt, word]
    have scaled := loadMultScaled_eq above
    rw [word, ← exactLoadMult_eq loaded] at scaled
    grind
  · rw [if_neg loaded, Option.map_none]
    split
    · rw [if_neg (fun both => loaded both.2)]
    · rfl

theorem applyLoadMult_exact {bnNew : Nat} (fits : bnNew < 2 ^ 240) (loadMult : Option UInt64) :
    applyLoadMult bnNew loadMult = exactApplyLoadMult bnNew (loadMult.map UInt64.toNat) := by
  rw [applyLoadMult_eq fits]
  cases loadMult with
  | none => exact Nat.mul_div_cancel _ (by decide)
  | some loadMult => rfl

variable {chain : Chain}

theorem emaLoadMult_exact (exact_ : ExactParams params)
    (counted : chain.last.mChainTxCount.toNat < 2 ^ 63) (postActivation : Nat) :
    (emaLoadMult chain params postActivation).map UInt64.toNat
      = exactEmaLoadMult chain params postActivation := by
  have slow := exact_.slowHalfLife
  grind [emaLoadMult, exactEmaLoadMult, windowLoadMult_exact]

theorem windowModeLoadMult_exact (exact_ : ExactParams params) {last first : BlockEntry}
    (counted : last.mChainTxCount.toNat < 2 ^ 63) :
    (windowModeLoadMult last first params).map UInt64.toNat
      = exactWindowModeLoadMult last first params := by
  have size := exact_.windowSize
  grind [windowModeLoadMult, exactWindowModeLoadMult, windowLoadMult_exact]

/-! ## The required bits -/

theorem setCompact_exact {nBits : UInt32} (fits : exactCompact nBits < 2 ^ 256) :
    setCompact nBits = exactCompact nBits := by
  grind [setCompact, exactCompact, shl256, Nat.mod_eq_of_lt]

theorem nextWorkEma_exact (exact_ : ExactParams params)
    (target : exactCompact chain.last.nBits ≤ params.powLimit)
    (counted : chain.last.mChainTxCount.toNat < 2 ^ 63) (nBlockTime : Int) :
    nextWorkEma chain nBlockTime params (params.nDagTargetSpacingMs / 1000)
      = exactNextWorkEma chain nBlockTime params (params.nDagTargetSpacingMs / 1000) := by
  have limit := exact_.powLimit
  unfold nextWorkEma exactNextWorkEma
  dsimp only
  generalize chain.nHeight - max 4 params.nDagDiffWindowSize = postActivation
  have upper := (emaAdjustMilli_bounds exact_.maxAdjust chain (params.nDagTargetSpacingMs / 1000)
    (min params.nDagDiffWindowSize postActivation)).2
  rw [emaAdjustMilli_exact exact_] at upper ⊢
  generalize exactAdjustMilli params (params.nDagTargetSpacingMs / 1000)
    (exactSampleTimes chain (min params.nDagDiffWindowSize postActivation)) = adjustMilli at upper ⊢
  have eased : exactCompact chain.last.nBits / 1000 * adjustMilli < 2 ^ 240 :=
    lt_of_le_of_lt (Nat.mul_le_mul_left _ upper) (by omega)
  rw [setCompact_exact (by omega), mul256_of_lt (by omega), applyLoadMult_exact eased,
    emaLoadMult_exact exact_ counted]

theorem nextWorkWindow_exact (exact_ : ExactParams params)
    (target : exactCompact chain.last.nBits ≤ params.powLimit)
    (counted : chain.last.mChainTxCount.toNat < 2 ^ 63) (nBlockTime : Int) :
    nextWorkWindow chain nBlockTime params (params.nDagTargetSpacingMs / 1000)
      = exactNextWorkWindow chain nBlockTime params (params.nDagTargetSpacingMs / 1000) := by
  have limit := exact_.powLimit
  have short := exact_.timespan
  have whole : 4 ≤ params.nDagDiffWindowSize * (params.nDagTargetSpacingMs / 1000) :=
    le_trans exact_.window (Nat.le_mul_of_pos_right _ exact_.spacing)
  unfold nextWorkWindow exactNextWorkWindow
  dsimp only
  generalize params.nDagDiffWindowSize * (params.nDagTargetSpacingMs / 1000) = nTargetTimespan
    at short whole ⊢
  cases chain.getAncestor ((chain.nHeight : Int) - ((params.nDagDiffWindowSize : Int) - 1)) with
  | none => rfl
  | some first =>
    have scaled : scaleTarget (setCompact chain.last.nBits)
        (clampTimespan (chain.last.getBlockTime - first.getBlockTime) nTargetTimespan)
        nTargetTimespan = exactCompact chain.last.nBits *
          (clampTimespan (chain.last.getBlockTime - first.getBlockTime) nTargetTimespan).toNat /
          nTargetTimespan := by
      obtain ⟨low, high⟩ := clampTimespan_bounds
        (chain.last.getBlockTime - first.getBlockTime) whole
      generalize clampTimespan (chain.last.getBlockTime - first.getBlockTime) nTargetTimespan
        = timespan at low high ⊢
      have word : (UInt32.ofInt timespan).toNat = timespan.toNat := by
        rw [UInt32.ofInt, UInt32.toNat_ofNat']
        omega
      have fits : exactCompact chain.last.nBits * timespan.toNat < 2 ^ 256 :=
        lt_of_le_of_lt (Nat.mul_le_mul_left _ (show timespan.toNat ≤ 2 ^ 20 by omega)) (by omega)
      rw [scaleTarget, setCompact_exact (by omega), word, mul256_of_lt fits]
    have eased := scaleTarget_le (setCompact chain.last.nBits)
      (chain.last.getBlockTime - first.getBlockTime) nTargetTimespan
    rw [setCompact_exact (show exactCompact chain.last.nBits < 2 ^ 256 by omega)] at eased scaled
    simp only [Option.bind_eq_bind, Option.bind_some]
    rw [setCompact_exact (show exactCompact chain.last.nBits < 2 ^ 256 by omega),
      applyLoadMult_exact (by omega), windowModeLoadMult_exact exact_ counted, scaled]

theorem getNextWorkRequiredDAG_exact (exact_ : ExactParams params)
    (target : exactCompact chain.last.nBits ≤ params.powLimit)
    (counted : chain.last.mChainTxCount.toNat < 2 ^ 63) (nBlockTime : Int) :
    getNextWorkRequiredDAG chain nBlockTime params
      = exactNextWorkRequiredDAG chain nBlockTime params := by
  unfold getNextWorkRequiredDAG exactNextWorkRequiredDAG
  dsimp only
  rw [nextWorkEma_exact exact_ target counted, nextWorkWindow_exact exact_ target counted]

end QuantBTC.Pow
