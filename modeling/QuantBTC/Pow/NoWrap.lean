/-
# Pow.NoWrap -- no intermediate result of the difficulty rule wraps

`GetNextWorkRequiredDAG` once more, with every operation on a word checked: a sum, product or
cast that leaves its word, a difference below zero and a division by zero all end in `none`.
The operations stand where the code has them, one line each.

The window of the load multiplier can be empty, in the first block of the moving average; the
two counts are then those of one block and nothing is divided.
-/
import QuantBTC.Pow.Exact
import QuantBTC.Theory.Checked

namespace QuantBTC.Pow

set_option autoImplicit false

open Consensus Theory

/-! ## The checked rule -/

def checkedRootStart (n : Nat) : Nat → Nat → Nat
  | 0, bit => bit
  | fuel + 1, bit => if bit > n then checkedRootStart n fuel (bit / 4) else bit

def checkedRootLoop : Nat → Nat → Nat → Nat → Option Nat
  | 0, _, _, result => some result
  | fuel + 1, bit, n, result =>
    if bit ≠ 0 then do
      let trial ← Checked.add 64 result bit
      if n ≥ trial then
        let rest ← Checked.sub n trial
        let root ← Checked.add 64 (result / 2) bit
        checkedRootLoop fuel (bit / 4) rest root
      else checkedRootLoop fuel (bit / 4) n (result / 2)
    else some result

def checkedSquareRoot (n : Nat) : Option Nat :=
  checkedRootLoop 32 (checkedRootStart n 32 (2 ^ 62)) n 0

def checkedBlockTimes : Nat → List BlockEntry → Option (List Int)
  | limit + 1, cur :: pprev :: rest => do
      let bt ← Checked.signed 63 (cur.getBlockTime - pprev.getBlockTime)
      let older ← checkedBlockTimes limit (pprev :: rest)
      some ((if bt < 1 then 1 else bt) :: older)
  | _, _ => some []

def checkedEmaStep (alphaFp oneMinusAlpha : Nat) (blockTime : Int) (emaFp : Nat) : Option Nat := do
  let sampleFp ← Checked.mul 64 blockTime.toNat 65536
  let fresh ← Checked.mul 64 alphaFp sampleFp
  let kept ← Checked.mul 64 oneMinusAlpha emaFp
  let sum ← Checked.add 64 fresh kept
  Checked.div sum 65536

def checkedEma (halfLife : Nat) (blockTimes : List Int) : Option Nat := do
  let alphaFp ← Checked.div 45426 (max 1 halfLife)
  let alphaFp := max 1 alphaFp
  let oneMinusAlpha ← Checked.sub 65536 alphaFp
  match blockTimes.getLast? with
  | none => Checked.mul 64 10 65536
  | some oldest =>
    let seed ← Checked.mul 64 oldest.toNat 65536
    blockTimes.foldrM (checkedEmaStep alphaFp oneMinusAlpha) seed

def checkedAdjustMilli (params : Params) (nTargetSpacing : Nat) (blockTimes : List Int) :
    Option Nat := do
  let fastEmaFp ← checkedEma params.nDagEmaFastHalfLife blockTimes
  let slowEmaFp ← checkedEma params.nDagEmaSlowHalfLife blockTimes
  let fast ← Checked.mul 64 fastEmaFp 7
  let slow ← Checked.mul 64 slowEmaFp 3
  let sum ← Checked.add 64 fast slow
  let blendedFp ← Checked.div sum 10
  let targetFp ← Checked.mul 64 nTargetSpacing 65536
  let blendedFp := if blendedFp = 0 then 1 else blendedFp
  let targetFp := if targetFp = 0 then 65536 else targetFp
  let scaled ← Checked.mul 64 blendedFp 1000
  let adjustMilli ← Checked.div scaled targetFp
  let maxAdj := params.nDagEmaMaxAdjust
  let minAdj ← Checked.div 1000000 maxAdj
  let adjustMilli := if adjustMilli > maxAdj then maxAdj else adjustMilli
  some (if adjustMilli < minAdj then minAdj else adjustMilli)

def checkedLoadMult (avgTx baseline maxMult : Nat) : Option Nat := do
  let square ← Checked.mul 64 baseline maxMult
  let cap ← Checked.mul 64 square maxMult
  let scaled ← Checked.mul 64 (min avgTx cap) 65536
  let scaled ← Checked.mul 64 scaled 65536
  let ratioScaled ← Checked.div scaled baseline
  let loadMult ← checkedSquareRoot ratioScaled
  let loadMult := if loadMult < 65536 then 65536 else loadMult
  let top ← Checked.mul 64 maxMult 65536
  some (if loadMult > top then top else loadMult)

def checkedWindowLoadMult (params : Params) (last first : BlockEntry) (window : Nat) :
    Option (Option Nat) :=
  if last.mChainTxCount.toNat > first.mChainTxCount.toNat then do
    let txCount ← Checked.sub last.mChainTxCount.toNat first.mChainTxCount.toNat
    let quotient ← Checked.div txCount window
    -- the cast to `int64_t`
    let avgTx ← Checked.signed 63 quotient
    if avgTx > 0 ∧ avgTx.toNat > params.nLoadDiffBaseline then
      let loadMult ← checkedLoadMult avgTx.toNat params.nLoadDiffBaseline
        params.nLoadDiffMaxMultiplier
      some (some loadMult)
    else some none
  else some none

def checkedApplyLoadMult (bnNew : Nat) : Option Nat → Option Nat
  | some loadMult => do
      let scaled ← Checked.mul 256 bnNew 65536
      Checked.div scaled loadMult
  | none => some bnNew

def checkedEmaLoadMult (pindexLast : Chain) (params : Params) (postActivation : Nat) :
    Option (Option Nat) :=
  if params.nLoadDiffBaseline > 0 ∧ params.nLoadDiffMaxMultiplier > 1 ∧
      pindexLast.ancestors ≠ [] then do
    let doubled ← Checked.word 63 (params.nDagEmaSlowHalfLife * 2)
    let loadWindow := min doubled postActivation
    match pindexLast.getAncestor ((pindexLast.nHeight : Int) - loadWindow) with
    | some pOlder => checkedWindowLoadMult params pindexLast.last pOlder loadWindow
    | none => some none
  else some none

def checkedIsLate (pindexLast : Chain) (nBlockTime : Int) (params : Params)
    (nTargetSpacing factor : Nat) : Option Bool :=
  if params.fPowAllowMinDifficultyBlocks then do
    let delay ← Checked.signed 63 (nTargetSpacing * factor)
    let latest ← Checked.signed 63 (pindexLast.last.getBlockTime + delay)
    some (decide (nBlockTime > latest))
  else some false

def checkedNextWorkEma (pindexLast : Chain) (nBlockTime : Int) (params : Params)
    (nTargetSpacing : Nat) : Option UInt32 :=
  let nProofOfWorkLimit := getCompact params.powLimit
  let emaActivation := max 4 params.nDagDiffWindowSize
  if pindexLast.nHeight < emaActivation then some nProofOfWorkLimit
  else do
    let late ← checkedIsLate pindexLast nBlockTime params nTargetSpacing 4
    if late then some nProofOfWorkLimit
    else
      let postActivation ← Checked.sub pindexLast.nHeight emaActivation
      let effectiveLookback := min params.nDagDiffWindowSize postActivation
      let blockTimes ← checkedBlockTimes (min effectiveLookback pindexLast.nHeight)
        pindexLast.entries
      let adjustMilli ← checkedAdjustMilli params nTargetSpacing blockTimes
      let bnNew ← Checked.word 256 (exactCompact pindexLast.last.nBits)
      let bnNew ← Checked.div bnNew 1000
      let bnNew ← Checked.mul 256 bnNew adjustMilli
      let loadMult ← checkedEmaLoadMult pindexLast params postActivation
      let bnNew ← checkedApplyLoadMult bnNew loadMult
      some (getCompact (clipToLimit bnNew params.powLimit))

def checkedTimespan (last first : BlockEntry) (nTargetTimespan : Nat) : Option Nat := do
  let nActualTimespan ← Checked.signed 63 (last.getBlockTime - first.getBlockTime)
  let longest ← Checked.word 63 (nTargetTimespan * 4)
  let nActualTimespan := if nActualTimespan < ((nTargetTimespan / 4 : Nat) : Int)
    then ((nTargetTimespan / 4 : Nat) : Int) else nActualTimespan
  let nActualTimespan := if nActualTimespan > (longest : Int) then (longest : Int)
    else nActualTimespan
  Checked.word 32 nActualTimespan.toNat

def checkedWindowModeLoadMult (last first : BlockEntry) (params : Params) : Option (Option Nat) :=
  if params.nLoadDiffBaseline > 0 ∧ params.nLoadDiffMaxMultiplier > 1 then do
    let kWindow ← Checked.sub params.nDagDiffWindowSize 1
    checkedWindowLoadMult params last first kWindow
  else some none

def checkedNextWorkWindow (pindexLast : Chain) (nBlockTime : Int) (params : Params)
    (nTargetSpacing : Nat) : Option UInt32 :=
  let nProofOfWorkLimit := getCompact params.powLimit
  let nWindow := params.nDagDiffWindowSize
  if pindexLast.nHeight < nWindow then some nProofOfWorkLimit
  else do
    let nTargetTimespan ← Checked.word 63 (nWindow * nTargetSpacing)
    let position ← Checked.mod (pindexLast.nHeight + 1) nWindow
    if position ≠ 0 then
      let late ← checkedIsLate pindexLast nBlockTime params nTargetSpacing 2
      if late then some nProofOfWorkLimit else some pindexLast.last.nBits
    else
      let pindexFirst ← pindexLast.getAncestor ((pindexLast.nHeight : Int) - ((nWindow : Int) - 1))
      let nActualTimespan ← checkedTimespan pindexLast.last pindexFirst nTargetTimespan
      let bnNew ← Checked.word 256 (exactCompact pindexLast.last.nBits)
      let bnNew ← Checked.mul 256 bnNew nActualTimespan
      let bnNew ← Checked.div bnNew nTargetTimespan
      let loadMult ← checkedWindowModeLoadMult pindexLast.last pindexFirst params
      let bnNew ← checkedApplyLoadMult bnNew loadMult
      some (getCompact (clipToLimit bnNew params.powLimit))

def checkedNextWorkRequiredDAG (pindexLast : Chain) (nBlockTime : Int) (params : Params) :
    Option UInt32 :=
  if params.fPowNoRetargeting then some pindexLast.last.nBits
  else
    let nTargetSpacing := params.nDagTargetSpacingMs / 1000
    if nTargetSpacing ≤ 0 then some pindexLast.last.nBits
    else if params.fDagUseEma then checkedNextWorkEma pindexLast nBlockTime params nTargetSpacing
    else checkedNextWorkWindow pindexLast nBlockTime params nTargetSpacing

variable {params : Params}

/-! ## The square root -/

def openBit : Nat → Nat
  | 0 => 0
  | places + 1 => 4 ^ places

theorem openBit_succ (places : Nat) : openBit (places + 1) = 4 ^ places := rfl

theorem openBit_div (places : Nat) : openBit (places + 1) / 4 = openBit places := by
  cases places with
  | zero => rfl
  | succ places => exact Nat.mul_div_cancel _ (by decide)

theorem checkedRootStart_spec {n fuel : Nat} (fits : n < 4 ^ fuel) :
    ∃ places ≤ fuel, checkedRootStart n fuel (openBit fuel) = openBit places ∧ n < 4 ^ places := by
  induction fuel with
  | zero => exact ⟨0, le_refl _, rfl, fits⟩
  | succ fuel ih =>
    rw [checkedRootStart]
    split
    next large =>
      obtain ⟨places, below, start, small⟩ := ih large
      rw [openBit_div]
      exact ⟨places, by omega, start, small⟩
    · exact ⟨fuel + 1, le_refl _, rfl, fits⟩

theorem checkedRootLoop_eq {places fuel root n result : Nat} (enough : places ≤ fuel)
    (room : root + 2 ^ places ≤ 2 ^ 32) (scaled : result = root * 2 ^ places) :
    checkedRootLoop fuel (openBit places) n result
      = some (SquareRoot.descend places n result) := by
  induction places generalizing fuel root n result with
  | zero => cases fuel <;> rfl
  | succ places ih =>
    obtain ⟨fuel, rfl⟩ : ∃ before, fuel = before + 1 := ⟨fuel - 1, by omega⟩
    have place : 0 < 2 ^ places := Nat.two_pow_pos places
    have twice : 2 ^ (places + 1) = 2 ^ places + 2 ^ places := by omega
    have fits : result + 4 ^ places < 2 ^ 64 := by
      have square := SquareRoot.square_add_place root places
      have := Nat.mul_lt_mul'' (show root + 2 ^ places < 2 ^ 32 by omega)
        (show root + 2 ^ places < 2 ^ 32 by omega)
      omega
    have halved : result / 2 = root * 2 ^ places := by
      rw [scaled, pow_succ, ← mul_assoc, Nat.mul_div_cancel _ (by omega)]
    have nonzero : openBit (places + 1) ≠ 0 := Nat.pow_pos (by decide) |>.ne'
    have trial := Checked.add_eq fits
    have grown : Checked.add 64 (result / 2) (4 ^ places) = some (result / 2 + 4 ^ places) :=
      Checked.add_eq (by omega)
    rw [checkedRootLoop, if_pos nonzero, openBit_div, SquareRoot.descend]
    simp only [openBit_succ, trial, Option.bind_eq_bind, Option.bind_some]
    split
    next taken =>
      rw [Checked.sub_eq taken, Option.bind_some, grown, Option.bind_some]
      refine ih (by omega) (show root + 2 ^ places + 2 ^ places ≤ 2 ^ 32 by omega) ?_
      rw [halved, add_mul, SquareRoot.four_pow]
    · exact ih (by omega) (by omega) halved

/-- **No sum or difference of `IntegerSquareRoot` wraps.** -/
theorem checkedSquareRoot_eq {n : Nat} (fits : n < 2 ^ 64) :
    checkedSquareRoot n = some (Nat.sqrt n) := by
  obtain ⟨places, few, start, small⟩ := checkedRootStart_spec (show n < 4 ^ 32 by omega)
  have room : 0 + 2 ^ places ≤ 2 ^ 32 := by
    rw [Nat.zero_add]
    exact Nat.pow_le_pow_right (by omega) few
  have exact_ : SquareRoot.descend places n (0 * 2 ^ places) = Nat.sqrt (n + 0 * 0) := by
    apply SquareRoot.descend_eq_sqrt
    simpa [← SquareRoot.four_pow] using small
  rw [checkedSquareRoot, show 2 ^ 62 = openBit 32 from rfl, start,
    checkedRootLoop_eq few room (Nat.zero_mul _).symm]
  simpa using congrArg some exact_

inductive RootStart (n : UInt64) : UInt64 → UInt64 → Prop
  | stop {bit : UInt64} (fits : ¬ bit > n) : RootStart n bit bit
  | round {bit start : UInt64} (large : bit > n) (rest : RootStart n (bit >>> 2) start) :
      RootStart n bit start

inductive RootRun : UInt64 → UInt64 → UInt64 → UInt64 → Prop
  | stop {n result : UInt64} : RootRun 0 n result result
  | taken {bit n result root : UInt64} (nonzero : bit ≠ 0) (fits : n ≥ result + bit)
      (rest : RootRun (bit >>> 2) (n - (result + bit)) ((result >>> 1) + bit) root) :
      RootRun bit n result root
  | skipped {bit n result root : UInt64} (nonzero : bit ≠ 0) (large : ¬ n ≥ result + bit)
      (rest : RootRun (bit >>> 2) n (result >>> 1) root) : RootRun bit n result root

theorem squareRootStart_run (n : UInt64) {places : Nat} (few : places ≤ 32) :
    RootStart n (placeBit places) (squareRootStart n places (placeBit places)) := by
  induction places with
  | zero => exact RootStart.stop (by simp [placeBit])
  | succ places ih =>
    rw [squareRootStart]
    split
    next large =>
      refine RootStart.round large ?_
      rw [placeBit_shiftRight few]
      exact ih (by omega)
    next fits => exact RootStart.stop fits

theorem squareRootLoop_run {places fuel : Nat} (few : places ≤ 32) (enough : places ≤ fuel)
    (n result : UInt64) :
    RootRun (placeBit places) n result (squareRootLoop fuel (placeBit places) n result) := by
  induction places generalizing fuel n result with
  | zero => cases fuel <;> exact RootRun.stop
  | succ places ih =>
    obtain ⟨fuel, rfl⟩ : ∃ before, fuel = before + 1 := ⟨fuel - 1, by omega⟩
    have nonzero : placeBit (places + 1) ≠ 0 := by
      intro zero
      have bit := toNat_placeBit few
      rw [zero] at bit
      exact absurd bit.symm (Nat.pow_pos (by omega)).ne'
    have rest := ih (show places ≤ 32 by omega) (show places ≤ fuel by omega)
    rw [squareRootLoop, if_pos nonzero, placeBit_shiftRight few]
    split
    next fits => exact RootRun.taken nonzero fits (placeBit_shiftRight few ▸ rest _ _)
    next large => exact RootRun.skipped nonzero large (placeBit_shiftRight few ▸ rest _ _)

/-- **`IntegerSquareRoot` ends, on every word, with the root rounded down**, and on unbounded
integers it computes the same: nothing wraps on the way. -/
theorem integerSquareRoot_correct (n : UInt64) :
    (∃ start, RootStart n ((1 : UInt64) <<< 62) start ∧ RootRun start n 0 (integerSquareRoot n)) ∧
      checkedSquareRoot n.toNat = some (integerSquareRoot n).toNat ∧
      (integerSquareRoot n).toNat * (integerSquareRoot n).toNat ≤ n.toNat ∧
      n.toNat < ((integerSquareRoot n).toNat + 1) * ((integerSquareRoot n).toNat + 1) := by
  have top : (1 : UInt64) <<< 62 = placeBit 32 := by decide
  refine ⟨⟨squareRootStart n 32 (placeBit 32), ?_, ?_⟩, ?_, ?_, ?_⟩
  · rw [top]
    exact squareRootStart_run n (le_refl 32)
  · obtain ⟨places, few, start, -⟩ := squareRootStart_spec (le_refl 32) (UInt64.toNat_lt n)
    rw [integerSquareRoot, top, start]
    exact squareRootLoop_run few few n 0
  · rw [checkedSquareRoot_eq (UInt64.toNat_lt n), integerSquareRoot_eq]
  · rw [integerSquareRoot_eq]
    exact Nat.sqrt_le n.toNat
  · rw [integerSquareRoot_eq]
    exact Nat.lt_succ_sqrt n.toNat

/-! ## The moving averages -/

theorem checkedBlockTimes_eq (limit : Nat) (entries : List BlockEntry) :
    checkedBlockTimes limit entries = some (collectBlockTimes limit entries) := by
  induction limit generalizing entries with
  | zero => simp only [checkedBlockTimes, collectBlockTimes]
  | succ limit ih =>
    rcases entries with _ | ⟨cur, _ | ⟨pprev, rest⟩⟩
    · rfl
    · rfl
    · have curTime := cur.nTime.toNat_lt
      have prevTime := pprev.nTime.toNat_lt
      have fits : Checked.signed 63 (cur.getBlockTime - pprev.getBlockTime)
          = some (cur.getBlockTime - pprev.getBlockTime) := by
        unfold BlockEntry.getBlockTime
        apply Checked.signed_eq <;> omega
      simp only [checkedBlockTimes, collectBlockTimes, fits, ih, Option.bind_eq_bind,
        Option.bind_some]

theorem checkedEmaStep_eq {alphaFp oneMinusAlpha emaFp : Nat} {blockTime : Int}
    (weights : alphaFp + oneMinusAlpha = 65536) (sample : blockTime < 2 ^ 32)
    (average : emaFp ≤ emaTop) :
    checkedEmaStep alphaFp oneMinusAlpha blockTime emaFp
      = some (exactEmaStep alphaFp oneMinusAlpha blockTime emaFp) := by
  have fits := (exactEmaStep_le weights sample average).1
  rw [checkedEmaStep, Checked.mul_eq (by omega)]
  simp only [Option.bind_eq_bind, Option.bind_some]
  rw [Checked.mul_eq (by omega), Option.bind_some, Checked.mul_eq (by omega), Option.bind_some,
    Checked.add_eq fits, Option.bind_some, Checked.div_eq (by decide), exactEmaStep]

variable {blockTimes : List Int}

theorem checkedEmaFold_eq {alphaFp oneMinusAlpha seed : Nat}
    (weights : alphaFp + oneMinusAlpha = 65536)
    (samples : ∀ blockTime ∈ blockTimes, blockTime < 2 ^ 32) (average : seed ≤ emaTop) :
    blockTimes.foldrM (checkedEmaStep alphaFp oneMinusAlpha) seed
        = some (blockTimes.foldr (exactEmaStep alphaFp oneMinusAlpha) seed) ∧
      blockTimes.foldr (exactEmaStep alphaFp oneMinusAlpha) seed ≤ emaTop := by
  induction blockTimes with
  | nil => exact ⟨rfl, average⟩
  | cons blockTime older ih =>
    have sample := samples blockTime List.mem_cons_self
    obtain ⟨same, below⟩ := ih fun sample listed => samples sample (List.mem_cons_of_mem _ listed)
    rw [List.foldrM_cons, same, List.foldr_cons]
    exact ⟨checkedEmaStep_eq weights sample below, (exactEmaStep_le weights sample below).2⟩

theorem checkedEma_eq (halfLife : Nat) (samples : ∀ blockTime ∈ blockTimes, blockTime < 2 ^ 32) :
    checkedEma halfLife blockTimes = some (exactEma halfLife blockTimes) ∧
      exactEma halfLife blockTimes ≤ emaTop := by
  have bounds := exactAlpha_bounds halfLife
  have weights := Nat.add_sub_of_le (le_trans bounds.2 (show _ ≤ 65536 by omega))
  have quotient : Checked.div 45426 (max 1 halfLife) = some (45426 / max 1 halfLife) :=
    Checked.div_eq (by omega)
  have rest : Checked.sub 65536 (max 1 (45426 / max 1 halfLife))
      = some (65536 - exactAlpha halfLife) := Checked.sub_eq (le_trans bounds.2 (by omega))
  unfold checkedEma exactEma
  simp only [quotient, rest, Option.bind_eq_bind, Option.bind_some]
  cases newest : blockTimes.getLast? with
  | none => exact ⟨rfl, show 10 * 65536 ≤ emaTop by decide⟩
  | some oldest =>
    have sample := samples oldest (List.mem_of_getLast? newest)
    have seed : oldest.toNat * 65536 ≤ emaTop := by
      unfold emaTop
      omega
    dsimp only
    rw [Checked.mul_eq (by omega), Option.bind_some]
    exact checkedEmaFold_eq weights samples seed

theorem checkedAdjustMilli_eq (exact_ : ExactParams params)
    (samples : ∀ blockTime ∈ blockTimes, blockTime < 2 ^ 32) :
    checkedAdjustMilli params (params.nDagTargetSpacingMs / 1000) blockTimes
      = some (exactAdjustMilli params (params.nDagTargetSpacingMs / 1000) blockTimes) := by
  obtain ⟨fast, fastTop⟩ := checkedEma_eq params.nDagEmaFastHalfLife samples
  obtain ⟨slow, slowTop⟩ := checkedEma_eq params.nDagEmaSlowHalfLife samples
  have spacing := exact_.shortSpacing
  have top : emaTop = 281474976645120 := by decide
  unfold checkedAdjustMilli exactAdjustMilli
  rw [fast, slow]
  generalize exactEma params.nDagEmaFastHalfLife blockTimes = fastFp at fastTop ⊢
  generalize exactEma params.nDagEmaSlowHalfLife blockTimes = slowFp at slowTop ⊢
  generalize params.nDagTargetSpacingMs / 1000 = nTargetSpacing at spacing ⊢
  simp only [Option.bind_eq_bind, Option.bind_some]
  rw [Checked.mul_eq (by omega), Option.bind_some, Checked.mul_eq (by omega), Option.bind_some,
    Checked.add_eq (by omega), Option.bind_some, Checked.div_eq (by decide), Option.bind_some,
    Checked.mul_eq (by omega), Option.bind_some, Checked.mul_eq (by split <;> omega),
    Option.bind_some, Checked.div_eq (by split <;> omega), Option.bind_some,
    Checked.div_eq (by rw [exact_.maxAdjust]; decide), Option.bind_some]

/-! ## The load multiplier -/

theorem checkedLoadMult_eq (avgTx : Nat) :
    checkedLoadMult avgTx 200 4 = some (exactLoadMult avgTx 200 4) := by
  have root : checkedSquareRoot (min avgTx (200 * 4 * 4) * 65536 * 65536 / 200)
      = some (Nat.sqrt (min avgTx (200 * 4 * 4) * 65536 * 65536 / 200)) :=
    checkedSquareRoot_eq (by omega)
  unfold checkedLoadMult exactLoadMult
  simp only [Option.bind_eq_bind]
  rw [Checked.mul_eq (by omega), Option.bind_some, Checked.mul_eq (by omega), Option.bind_some,
    Checked.mul_eq (by omega), Option.bind_some, Checked.mul_eq (by omega), Option.bind_some,
    Checked.div_eq (by omega), Option.bind_some, root, Option.bind_some,
    Checked.mul_eq (by omega), Option.bind_some]

theorem checkedWindowLoadMult_eq (exact_ : ExactParams params) {last first : BlockEntry}
    {window : Nat} (counted : last.mChainTxCount.toNat < 2 ^ 63)
    (nonempty : window = 0 → last = first) :
    checkedWindowLoadMult params last first window
      = some (exactWindowLoadMult params (exactTxCount last first) window) := by
  unfold checkedWindowLoadMult exactWindowLoadMult
  by_cases grew : last.mChainTxCount.toNat > first.mChainTxCount.toNat
  · have some_ : exactTxCount last first > 0 := Nat.sub_pos_of_lt grew
    have few : exactTxCount last first / window < 2 ^ 63 := by
      refine lt_of_le_of_lt (Nat.div_le_self _ _) (lt_of_le_of_lt (Nat.sub_le _ _) counted)
    have positive : window ≠ 0 := by
      intro empty
      rw [nonempty empty] at grew
      exact lt_irrefl _ grew
    have difference : Checked.sub last.mChainTxCount.toNat first.mChainTxCount.toNat
        = some (exactTxCount last first) := Checked.sub_eq (le_of_lt grew)
    rw [if_pos grew, if_pos some_, difference, Option.bind_eq_bind, Option.bind_some,
      Checked.div_eq positive, Option.bind_some]
    generalize exactTxCount last first / window = avgTx at few ⊢
    rw [Checked.signed_eq (by omega) (by omega), Option.bind_eq_bind, Option.bind_some,
      exact_.baseline, exact_.maxMultiplier]
    simp only [Int.toNat_natCast, gt_iff_lt, Int.natCast_pos, checkedLoadMult_eq,
      Option.bind_some]
    by_cases loaded : 0 < avgTx ∧ 200 < avgTx
    · rw [if_pos loaded, if_pos loaded]
    · rw [if_neg loaded, if_neg loaded]
  · have none_ : ¬ exactTxCount last first > 0 := by
      unfold exactTxCount
      omega
    rw [if_neg grew, if_neg none_]

theorem exactLoadMult_pos (avgTx : Nat) : 0 < exactLoadMult avgTx 200 4 := by
  unfold exactLoadMult
  dsimp only
  split <;> split <;> omega

theorem exactWindowLoadMult_pos (exact_ : ExactParams params) {txCount window loadMult : Nat}
    (loaded : exactWindowLoadMult params txCount window = some loadMult) : 0 < loadMult := by
  unfold exactWindowLoadMult at loaded
  rw [exact_.baseline, exact_.maxMultiplier] at loaded
  dsimp only at loaded
  split_ifs at loaded
  cases loaded
  exact exactLoadMult_pos _

theorem checkedApplyLoadMult_eq {bnNew : Nat} (fits : bnNew < 2 ^ 240) {loadMult : Option Nat}
    (positive : ∀ factor, loadMult = some factor → 0 < factor) :
    checkedApplyLoadMult bnNew loadMult = some (exactApplyLoadMult bnNew loadMult) := by
  cases loadMult with
  | none => rfl
  | some factor =>
    have nonzero := (positive factor rfl).ne'
    rw [checkedApplyLoadMult, Checked.mul_eq (by omega)]
    exact Checked.div_eq nonzero

variable {chain : Chain}

theorem checkedEmaLoadMult_eq (exact_ : ExactParams params)
    (counted : chain.last.mChainTxCount.toNat < 2 ^ 63) (postActivation : Nat) :
    checkedEmaLoadMult chain params postActivation
        = some (exactEmaLoadMult chain params postActivation) ∧
      ∀ factor, exactEmaLoadMult chain params postActivation = some factor → 0 < factor := by
  have slow := exact_.slowHalfLife
  unfold checkedEmaLoadMult exactEmaLoadMult
  split
  · rw [Checked.word_eq (by omega)]
    simp only [Option.bind_eq_bind, Option.bind_some]
    cases found : chain.getAncestor
        ((chain.nHeight : Int) - (min (params.nDagEmaSlowHalfLife * 2) postActivation : Nat)) with
    | none => exact ⟨rfl, by rintro factor ⟨⟩⟩
    | some pOlder =>
      refine ⟨checkedWindowLoadMult_eq exact_ counted fun empty => ?_,
        fun factor => exactWindowLoadMult_pos exact_⟩
      -- an empty window ends in the block it starts with
      rw [empty, Int.natCast_zero, Int.sub_zero, chain.getAncestor_self] at found
      exact Option.some.inj found
  · exact ⟨rfl, by rintro factor ⟨⟩⟩

theorem checkedWindowModeLoadMult_eq (exact_ : ExactParams params) {last : BlockEntry}
    (counted : last.mChainTxCount.toNat < 2 ^ 63) (first : BlockEntry) :
    checkedWindowModeLoadMult last first params = some (exactWindowModeLoadMult last first params) ∧
      ∀ factor, exactWindowModeLoadMult last first params = some factor → 0 < factor := by
  have size := exact_.window
  unfold checkedWindowModeLoadMult exactWindowModeLoadMult
  split
  · rw [Checked.sub_eq (by omega)]
    refine ⟨checkedWindowLoadMult_eq exact_ counted fun empty => ?_,
      fun factor => exactWindowLoadMult_pos exact_⟩
    omega
  · exact ⟨rfl, nofun⟩

/-! ## The rule -/

theorem checkedIsLate_eq (exact_ : ExactParams params) (chain : Chain) (nBlockTime : Int)
    (factor : Nat) :
    checkedIsLate chain nBlockTime params (params.nDagTargetSpacingMs / 1000) factor
      = some false := by
  rw [checkedIsLate, if_neg (by rw [exact_.strict]; decide)]

theorem checkedNextWorkEma_eq (exact_ : ExactParams params)
    (target : exactCompact chain.last.nBits ≤ params.powLimit)
    (counted : chain.last.mChainTxCount.toNat < 2 ^ 63) (nBlockTime : Int) :
    checkedNextWorkEma chain nBlockTime params (params.nDagTargetSpacingMs / 1000)
      = some (exactNextWorkEma chain nBlockTime params (params.nDagTargetSpacingMs / 1000)) := by
  have limit := exact_.powLimit
  unfold checkedNextWorkEma exactNextWorkEma
  by_cases early : chain.nHeight < max 4 params.nDagDiffWindowSize
  · rw [if_pos early, if_pos early]
  rw [if_neg early, if_neg early, checkedIsLate_eq exact_,
    if_neg (fun late => by simp [exact_.strict] at late), Checked.sub_eq (not_lt.mp early)]
  simp only [Option.bind_eq_bind, Option.bind_some, Bool.false_eq_true, if_false]
  generalize chain.nHeight - max 4 params.nDagDiffWindowSize = postActivation
  have upper := (emaAdjustMilli_bounds exact_.maxAdjust chain (params.nDagTargetSpacingMs / 1000)
    (min params.nDagDiffWindowSize postActivation)).2
  rw [emaAdjustMilli_exact exact_] at upper
  have samples : ∀ blockTime ∈ exactSampleTimes chain (min params.nDagDiffWindowSize postActivation),
      blockTime < 2 ^ 32 := fun _ sampled => (sampleTimes_bounds sampled).2
  obtain ⟨load, positive⟩ := checkedEmaLoadMult_eq exact_ counted postActivation
  rw [checkedBlockTimes_eq, Option.bind_some]
  change (checkedAdjustMilli params _ (exactSampleTimes chain _)).bind _ = _
  rw [checkedAdjustMilli_eq exact_ samples, Option.bind_some]
  generalize exactAdjustMilli params (params.nDagTargetSpacingMs / 1000)
    (exactSampleTimes chain (min params.nDagDiffWindowSize postActivation)) = adjustMilli at upper ⊢
  have eased : exactCompact chain.last.nBits / 1000 * adjustMilli < 2 ^ 240 :=
    lt_of_le_of_lt (Nat.mul_le_mul_left _ upper) (by omega)
  rw [Checked.word_eq (by omega), Option.bind_some, Checked.div_eq (by decide), Option.bind_some,
    Checked.mul_eq (by omega), Option.bind_some, load, Option.bind_some,
    checkedApplyLoadMult_eq eased positive, Option.bind_some]

theorem checkedTimespan_eq {last first : BlockEntry} {nTargetTimespan : Nat}
    (whole : 4 ≤ nTargetTimespan) (short : nTargetTimespan * 4 < 2 ^ 16) :
    checkedTimespan last first nTargetTimespan
      = some (clampTimespan (last.getBlockTime - first.getBlockTime) nTargetTimespan).toNat := by
  have lastTime := last.nTime.toNat_lt
  have firstTime := first.nTime.toNat_lt
  have fits : Checked.signed 63 (last.getBlockTime - first.getBlockTime)
      = some (last.getBlockTime - first.getBlockTime) := by
    unfold BlockEntry.getBlockTime
    apply Checked.signed_eq <;> omega
  obtain ⟨low, high⟩ := clampTimespan_bounds (last.getBlockTime - first.getBlockTime) whole
  rw [checkedTimespan, fits]
  simp only [Option.bind_eq_bind, Option.bind_some]
  rw [Checked.word_eq (by omega), Option.bind_some]
  change Checked.word 32 (clampTimespan _ nTargetTimespan).toNat = _
  exact Checked.word_eq (by omega)

theorem checkedNextWorkWindow_eq (exact_ : ExactParams params)
    (target : exactCompact chain.last.nBits ≤ params.powLimit)
    (counted : chain.last.mChainTxCount.toNat < 2 ^ 63) (nBlockTime : Int) :
    checkedNextWorkWindow chain nBlockTime params (params.nDagTargetSpacingMs / 1000)
      = exactNextWorkWindow chain nBlockTime params (params.nDagTargetSpacingMs / 1000) := by
  have limit := exact_.powLimit
  have short := exact_.timespan
  have size := exact_.window
  have whole : 4 ≤ params.nDagDiffWindowSize * (params.nDagTargetSpacingMs / 1000) :=
    le_trans exact_.window (Nat.le_mul_of_pos_right _ exact_.spacing)
  unfold checkedNextWorkWindow exactNextWorkWindow
  dsimp only
  generalize params.nDagDiffWindowSize * (params.nDagTargetSpacingMs / 1000) = nTargetTimespan
    at short whole ⊢
  by_cases early : chain.nHeight < params.nDagDiffWindowSize
  · rw [if_pos early, if_pos early]
  rw [if_neg early, if_neg early, Checked.word_eq (by omega)]
  simp only [Option.bind_eq_bind, Option.bind_some]
  rw [Checked.mod_eq (by omega), Option.bind_some]
  split
  · rw [checkedIsLate_eq exact_, if_neg (fun late => by simp [exact_.strict] at late)]
    rfl
  · cases chain.getAncestor ((chain.nHeight : Int) - ((params.nDagDiffWindowSize : Int) - 1)) with
    | none => rfl
    | some first =>
      obtain ⟨load, positive⟩ := checkedWindowModeLoadMult_eq exact_ counted first
      obtain ⟨low, high⟩ := clampTimespan_bounds
        (chain.last.getBlockTime - first.getBlockTime) whole
      simp only [Option.bind_some]
      rw [checkedTimespan_eq whole short, Option.bind_some]
      generalize clampTimespan (chain.last.getBlockTime - first.getBlockTime) nTargetTimespan
        = timespan at low high ⊢
      have fits : exactCompact chain.last.nBits * timespan.toNat < 2 ^ 256 :=
        lt_of_le_of_lt (Nat.mul_le_mul_left _ (show timespan.toNat ≤ 2 ^ 20 by omega)) (by omega)
      have eased : exactCompact chain.last.nBits * timespan.toNat / nTargetTimespan < 2 ^ 240 := by
        rw [Nat.div_lt_iff_lt_mul (by omega)]
        calc exactCompact chain.last.nBits * timespan.toNat
            ≤ exactCompact chain.last.nBits * (nTargetTimespan * 4) :=
              Nat.mul_le_mul_left _ (by omega)
          _ = exactCompact chain.last.nBits * 4 * nTargetTimespan := by ring
          _ < 2 ^ 240 * nTargetTimespan :=
              Nat.mul_lt_mul_of_pos_right (by omega) (by omega)
      rw [Checked.word_eq (by omega), Option.bind_some, Checked.mul_eq fits, Option.bind_some,
        Checked.div_eq (by omega), Option.bind_some, load, Option.bind_some,
        checkedApplyLoadMult_eq eased positive, Option.bind_some]

theorem checkedNextWorkRequiredDAG_eq (exact_ : ExactParams params)
    (target : exactCompact chain.last.nBits ≤ params.powLimit)
    (counted : chain.last.mChainTxCount.toNat < 2 ^ 63) (nBlockTime : Int) :
    checkedNextWorkRequiredDAG chain nBlockTime params
      = exactNextWorkRequiredDAG chain nBlockTime params := by
  unfold checkedNextWorkRequiredDAG exactNextWorkRequiredDAG
  dsimp only
  rw [checkedNextWorkEma_eq exact_ target counted, checkedNextWorkWindow_eq exact_ target counted]

/-- **The difficulty arithmetic never wraps**: on a public chain whose last target is within
the limit, for any 32-bit times and fewer than `2 ^ 63` transactions, the checked rule returns
bits, and these are the bits of the formula over unbounded integers and of the code. -/
theorem nextWork_never_wraps (network : DagChain) (chain : Chain) (nBlockTime : Int)
    (target : exactCompact chain.last.nBits ≤ network.consensus.powLimit)
    (counted : chain.last.mChainTxCount.toNat < 2 ^ 63) :
    ∃ bits, checkedNextWorkRequiredDAG chain nBlockTime network.consensus = some bits ∧
      exactNextWorkRequiredDAG chain nBlockTime network.consensus = some bits ∧
      getNextWorkRequiredDAG chain nBlockTime network.consensus = some bits := by
  have exact_ := exactParams_network network
  have code := getNextWorkRequiredDAG_exact exact_ target counted nBlockTime
  have checked := checkedNextWorkRequiredDAG_eq exact_ target counted nBlockTime
  have bits := getNextWorkRequiredDAG_eq exact_.toAdjustParams chain nBlockTime
  exact ⟨_, checked.trans (code.symm.trans bits), code.symm.trans bits, bits⟩

def loadedChain : Chain where
  last := ⟨1743380000, 0x1e0fffff, 2000000⟩
  ancestors := (List.range 400).map fun back =>
    ⟨UInt32.ofNat (1743379999 - back), 0x1e0fffff, UInt64.ofNat (1999000 - 1000 * back)⟩

theorem nextWork_never_wraps_loaded :
    exactCompact loadedChain.last.nBits ≤ DagChain.qbtcTestNet.consensus.powLimit ∧
      loadedChain.last.mChainTxCount.toNat < 2 ^ 63 ∧
      ∃ bits, checkedNextWorkRequiredDAG loadedChain 0 DagChain.qbtcTestNet.consensus = some bits ∧
        exactNextWorkRequiredDAG loadedChain 0 DagChain.qbtcTestNet.consensus = some bits ∧
        getNextWorkRequiredDAG loadedChain 0 DagChain.qbtcTestNet.consensus = some bits :=
  ⟨by decide +kernel, by decide +kernel,
    nextWork_never_wraps .qbtcTestNet loadedChain 0 (by decide +kernel) (by decide +kernel)⟩

end QuantBTC.Pow
