/-
# Pow.Difficulty -- the difficulty rules

The functions of `pow.cpp`.  A block index chain is read through `pprev` pointers and
`GetAncestor` only, so it is modelled as the entry of its last block with the entries
of its ancestors, nearest first: `nHeight` is then the number of ancestors.

`uint64_t` arithmetic is `UInt64`, which wraps; `int64_t` values are `Int`;
`arith_uint256` is a natural number with wrapping products (`mul256`).  A failed
`assert` is `none`.

`GetNextWorkRequiredDAG` has two modes, a dual moving average adjusted at every block
and a fixed window; both divide the new target by the same load multiplier.
-/
import QuantBTC.Consensus.Params
import QuantBTC.Pow.Compact

namespace QuantBTC.Pow

set_option autoImplicit false

open Consensus

/-! ## Block index chains -/

structure BlockEntry where
  nTime : UInt32
  nBits : UInt32
  mChainTxCount : UInt64
deriving DecidableEq, Repr

def BlockEntry.getBlockTime (entry : BlockEntry) : Int := entry.nTime.toNat

structure Chain where
  last : BlockEntry
  ancestors : List BlockEntry
deriving DecidableEq, Repr

namespace Chain

def entries (chain : Chain) : List BlockEntry := chain.last :: chain.ancestors

def nHeight (chain : Chain) : Nat := chain.ancestors.length

def extend (chain : Chain) (entry : BlockEntry) : Chain := ⟨entry, chain.entries⟩

def getAncestor (chain : Chain) (height : Int) : Option BlockEntry :=
  if height > chain.nHeight ∨ height < 0 then none
  else chain.entries[chain.nHeight - height.toNat]?

variable (chain : Chain)

@[simp] theorem nHeight_extend (entry : BlockEntry) :
    (chain.extend entry).nHeight = chain.nHeight + 1 := rfl

@[simp] theorem last_extend (entry : BlockEntry) : (chain.extend entry).last = entry := rfl

theorem getAncestor_self : chain.getAncestor chain.nHeight = some chain.last := by
  simp [getAncestor, entries]

end Chain

/-! ## Integer square root -/

def squareRootStart (n : UInt64) : Nat → UInt64 → UInt64
  | 0, bit => bit
  | fuel + 1, bit => if bit > n then squareRootStart n fuel (bit >>> 2) else bit

def squareRootLoop : Nat → UInt64 → UInt64 → UInt64 → UInt64
  | 0, _, _, result => result
  | fuel + 1, bit, n, result =>
    if bit ≠ 0 then
      if n ≥ result + bit then
        squareRootLoop fuel (bit >>> 2) (n - (result + bit)) ((result >>> 1) + bit)
      else squareRootLoop fuel (bit >>> 2) n (result >>> 1)
    else result

def integerSquareRoot (n : UInt64) : UInt64 :=
  squareRootLoop 32 (squareRootStart n 32 ((1 : UInt64) <<< 62)) n 0

/-! ## Moving average of block times -/

def fpScale : UInt64 := (1 : UInt64) <<< 16

def collectBlockTimes : Nat → List BlockEntry → List Int
  | limit + 1, cur :: pprev :: rest =>
    let bt := cur.getBlockTime - pprev.getBlockTime
    (if bt < 1 then 1 else bt) :: collectBlockTimes limit (pprev :: rest)
  | _, _ => []

def emaStep (alphaFp oneMinusAlpha : UInt64) (blockTime : Int) (emaFp : UInt64) : UInt64 :=
  let sampleFp := UInt64.ofInt blockTime * fpScale
  (alphaFp * sampleFp + oneMinusAlpha * emaFp) / fpScale

def computeBlockTimeEMA (pindexLast : Chain) (halfLife maxLookback : Nat) : UInt64 :=
  let alphaFp := max 1 (45426 / UInt64.ofNat (max 1 halfLife))
  let oneMinusAlpha := fpScale - alphaFp
  let limit := min maxLookback pindexLast.nHeight
  let blockTimes := collectBlockTimes limit pindexLast.entries
  match blockTimes.getLast? with
  | none => 10 * fpScale
  | some oldest =>
    blockTimes.foldr (emaStep alphaFp oneMinusAlpha) (UInt64.ofInt oldest * fpScale)

/-! ## Transaction load -/

def loadMultScaled (avgTx baseline maxMult : UInt64) : UInt64 :=
  let cappedAvgTx := min avgTx (baseline * maxMult * maxMult)
  let ratioScaled := (cappedAvgTx * fpScale * fpScale) / baseline
  let loadMult := integerSquareRoot ratioScaled
  let loadMult := if loadMult < fpScale then fpScale else loadMult
  if loadMult > maxMult * fpScale then maxMult * fpScale else loadMult

def windowLoadMult (params : Params) (txLast txFirst window : UInt64) : Option UInt64 :=
  if txLast > txFirst then
    let avgTx := (txLast - txFirst) / window
    let baseline := UInt64.ofNat params.nLoadDiffBaseline
    if avgTx.toInt64 > 0 ∧ avgTx > baseline then
      some (loadMultScaled avgTx baseline (UInt64.ofNat params.nLoadDiffMaxMultiplier))
    else none
  else none

def applyLoadMult (bnNew : Nat) : Option UInt64 → Nat
  | some loadMult => mul256 bnNew fpScale.toNat / loadMult.toNat
  | none => bnNew

/-! ## Required work -/

def clipToLimit (bnNew bnPowLimit : Nat) : Nat := if bnNew > bnPowLimit then bnPowLimit else bnNew

theorem clipToLimit_mono {bn bn' : Nat} (bnPowLimit : Nat) (le : bn ≤ bn') :
    clipToLimit bn bnPowLimit ≤ clipToLimit bn' bnPowLimit := by
  simp only [clipToLimit]
  split <;> split <;> omega

def emaAdjustMilli (pindexLast : Chain) (params : Params) (nTargetSpacing lookback : Nat) :
    UInt64 :=
  let fastEmaFp := computeBlockTimeEMA pindexLast params.nDagEmaFastHalfLife lookback
  let slowEmaFp := computeBlockTimeEMA pindexLast params.nDagEmaSlowHalfLife lookback
  let blendedFp := (fastEmaFp * 7 + slowEmaFp * 3) / 10
  let targetFp := UInt64.ofNat nTargetSpacing * fpScale
  let blendedFp := if blendedFp = 0 then 1 else blendedFp
  let targetFp := if targetFp = 0 then fpScale else targetFp
  let adjustMilli := (blendedFp * 1000) / targetFp
  let maxAdj := UInt64.ofNat params.nDagEmaMaxAdjust
  let minAdj := 1000000 / maxAdj
  let adjustMilli := if adjustMilli > maxAdj then maxAdj else adjustMilli
  if adjustMilli < minAdj then minAdj else adjustMilli

def emaLoadMult (pindexLast : Chain) (params : Params) (postActivation : Nat) : Option UInt64 :=
  if params.nLoadDiffBaseline > 0 ∧ params.nLoadDiffMaxMultiplier > 1 ∧
      pindexLast.ancestors ≠ [] then
    let loadWindow := min (params.nDagEmaSlowHalfLife * 2) postActivation
    match pindexLast.getAncestor ((pindexLast.nHeight : Int) - loadWindow) with
    | some pOlder =>
      windowLoadMult params pindexLast.last.mChainTxCount pOlder.mChainTxCount
        (UInt64.ofNat loadWindow)
    | none => none
  else none

def nextWorkEma (pindexLast : Chain) (nBlockTime : Int) (params : Params)
    (nTargetSpacing : Nat) : UInt32 :=
  let nProofOfWorkLimit := getCompact params.powLimit
  let emaActivation := max 4 params.nDagDiffWindowSize
  if pindexLast.nHeight < emaActivation then nProofOfWorkLimit
  else if params.fPowAllowMinDifficultyBlocks ∧
      nBlockTime > pindexLast.last.getBlockTime + nTargetSpacing * 4 then nProofOfWorkLimit
  else
    let postActivation := pindexLast.nHeight - emaActivation
    let effectiveLookback := min params.nDagDiffWindowSize postActivation
    let adjustMilli := emaAdjustMilli pindexLast params nTargetSpacing effectiveLookback
    let bnNew := mul256 (setCompact pindexLast.last.nBits / 1000) adjustMilli.toNat
    let bnNew := applyLoadMult bnNew (emaLoadMult pindexLast params postActivation)
    getCompact (clipToLimit bnNew params.powLimit)

def clampTimespan (nActualTimespan : Int) (nTargetTimespan : Nat) : Int :=
  let nActualTimespan := if nActualTimespan < ((nTargetTimespan / 4 : Nat) : Int)
    then ((nTargetTimespan / 4 : Nat) : Int) else nActualTimespan
  if nActualTimespan > ((nTargetTimespan * 4 : Nat) : Int)
    then ((nTargetTimespan * 4 : Nat) : Int) else nActualTimespan

def scaleTarget (bn : Nat) (nTimespan : Int) (nTargetTimespan : Nat) : Nat :=
  mul256 bn (UInt32.ofInt nTimespan).toNat / nTargetTimespan

def windowModeLoadMult (last first : BlockEntry) (params : Params) : Option UInt64 :=
  if params.nLoadDiffBaseline > 0 ∧ params.nLoadDiffMaxMultiplier > 1 then
    windowLoadMult params last.mChainTxCount first.mChainTxCount
      (UInt64.ofNat (params.nDagDiffWindowSize - 1))
  else none

def nextWorkWindow (pindexLast : Chain) (nBlockTime : Int) (params : Params)
    (nTargetSpacing : Nat) : Option UInt32 :=
  let nProofOfWorkLimit := getCompact params.powLimit
  let nWindow := params.nDagDiffWindowSize
  if pindexLast.nHeight < nWindow then some nProofOfWorkLimit
  else
    let nTargetTimespan := nWindow * nTargetSpacing
    if (pindexLast.nHeight + 1) % nWindow ≠ 0 then
      if params.fPowAllowMinDifficultyBlocks ∧
          nBlockTime > pindexLast.last.getBlockTime + nTargetSpacing * 2 then some nProofOfWorkLimit
      else some pindexLast.last.nBits
    else do
      let pindexFirst ← pindexLast.getAncestor ((pindexLast.nHeight : Int) - ((nWindow : Int) - 1))
      let nActualTimespan := clampTimespan
        (pindexLast.last.getBlockTime - pindexFirst.getBlockTime) nTargetTimespan
      let bnNew := scaleTarget (setCompact pindexLast.last.nBits) nActualTimespan nTargetTimespan
      let bnNew := applyLoadMult bnNew (windowModeLoadMult pindexLast.last pindexFirst params)
      some (getCompact (clipToLimit bnNew params.powLimit))

def getNextWorkRequiredDAG (pindexLast : Chain) (nBlockTime : Int) (params : Params) :
    Option UInt32 :=
  if params.fPowNoRetargeting then some pindexLast.last.nBits
  else
    let nTargetSpacing := params.nDagTargetSpacingMs / 1000
    if nTargetSpacing ≤ 0 then some pindexLast.last.nBits
    else if params.fDagUseEma then some (nextWorkEma pindexLast nBlockTime params nTargetSpacing)
    else nextWorkWindow pindexLast nBlockTime params nTargetSpacing

def calculateNextWorkRequired (pindexLast : Chain) (nFirstBlockTime : Int) (params : Params) :
    Option UInt32 :=
  if params.fPowNoRetargeting then some pindexLast.last.nBits
  else do
    let nActualTimespan := clampTimespan (pindexLast.last.getBlockTime - nFirstBlockTime)
      params.nPowTargetTimespan
    let nHeightFirst := (pindexLast.nHeight : Int) - ((params.difficultyAdjustmentInterval : Int) - 1)
    let bits ← if params.enforceBIP94 then (pindexLast.getAncestor nHeightFirst).map (·.nBits)
      else some pindexLast.last.nBits
    let bnNew := scaleTarget (setCompact bits) nActualTimespan params.nPowTargetTimespan
    some (getCompact (clipToLimit bnNew params.powLimit))

def lastNonSpecialBits (interval : Nat) (limit : UInt32) : List BlockEntry → UInt32 → UInt32
  | cur :: pprev :: rest, last =>
    if (pprev :: rest).length % interval ≠ 0 ∧ cur.nBits = limit then
      lastNonSpecialBits interval limit (pprev :: rest) last
    else cur.nBits
  | [cur], _ => cur.nBits
  | [], last => last

def getNextWorkRequired (dagArg : Option Bool) (pindexLast : Chain) (nBlockTime : Int)
    (params : Params) : Option UInt32 :=
  let nProofOfWorkLimit := getCompact params.powLimit
  if dagArg.getD params.fDagMode then getNextWorkRequiredDAG pindexLast nBlockTime params
  else
    let interval := params.difficultyAdjustmentInterval
    if (pindexLast.nHeight + 1) % interval ≠ 0 then
      if params.fPowAllowMinDifficultyBlocks then
        if nBlockTime > pindexLast.last.getBlockTime + params.nPowTargetSpacing * 2 then
          some nProofOfWorkLimit
        else
          some (lastNonSpecialBits interval nProofOfWorkLimit pindexLast.entries
            pindexLast.last.nBits)
      else some pindexLast.last.nBits
    else do
      let pindexFirst ← pindexLast.getAncestor ((pindexLast.nHeight : Int) - ((interval : Int) - 1))
      calculateNextWorkRequired pindexLast pindexFirst.getBlockTime params

def permittedDifficultyTransition (params : Params) (height : Nat) (oldNbits newNbits : UInt32) :
    Bool :=
  if params.fPowAllowMinDifficultyBlocks then true
  else if height % params.difficultyAdjustmentInterval = 0 then
    let smallestTimespan := params.nPowTargetTimespan / 4
    let largestTimespan := params.nPowTargetTimespan * 4
    let observedNewTarget := setCompact newNbits
    let largestDifficultyTarget := clipToLimit
      (scaleTarget (setCompact oldNbits) largestTimespan params.nPowTargetTimespan) params.powLimit
    let maximumNewTarget := setCompact (getCompact largestDifficultyTarget)
    let smallestDifficultyTarget := clipToLimit
      (scaleTarget (setCompact oldNbits) smallestTimespan params.nPowTargetTimespan) params.powLimit
    let minimumNewTarget := setCompact (getCompact smallestDifficultyTarget)
    if maximumNewTarget < observedNewTarget then false
    else if minimumNewTarget > observedNewTarget then false
    else true
  else decide (oldNbits = newNbits)

def checkProofOfWork (hash : Nat) (nBits : UInt32) (params : Params) : Bool :=
  let bnTarget := setCompact nBits
  if setCompactNegative nBits ∨ bnTarget = 0 ∨ setCompactOverflow nBits ∨
      bnTarget > params.powLimit then false
  else if hash > bnTarget then false
  else true

end QuantBTC.Pow
