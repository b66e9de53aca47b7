/-
# Pow.Schedule -- chains whose blocks arrive on target

A chain is on schedule when every block interval that the rule samples is the target
spacing and its load is at most the baseline.  Both moving averages then sit at their
fixed point and the adjustment is exactly one; still the target is not kept.  The moving
average divides by 1000 before it multiplies by 1000, and the window measures the 4031
intervals between its 4032 blocks against 4032 spacings.  Either loss is below one unit of
the mantissa, and the encoding rounds it down to a whole one.
-/
import QuantBTC.Pow.DownloadState
import QuantBTC.Pow.Presync

namespace QuantBTC.Pow

set_option autoImplicit false

open Consensus Theory

/-! ## Chains on schedule -/

def Spaced (spacing count : Nat) (entries : List BlockEntry) : Prop :=
  ∀ i < count, ∀ cur ∈ entries[i]?, ∀ pprev ∈ entries[i + 1]?,
    cur.getBlockTime - pprev.getBlockTime = (spacing : Int)

instance (spacing count : Nat) (entries : List BlockEntry) :
    Decidable (Spaced spacing count entries) :=
  inferInstanceAs (Decidable (∀ i < count, ∀ cur ∈ entries[i]?, ∀ pprev ∈ entries[i + 1]?, _))

def sampledIntervals (params : Params) (nHeight : Nat) : Nat :=
  if params.fDagUseEma then
    min params.nDagDiffWindowSize (nHeight - max 4 params.nDagDiffWindowSize)
  else params.nDagDiffWindowSize - 1

def sampledLoad (params : Params) (chain : Chain) : Nat :=
  match chain.getAncestor ((chain.nHeight : Int) - loadWindow params chain.nHeight) with
  | some older =>
    (chain.last.mChainTxCount.toNat - older.mChainTxCount.toNat) /
      loadWindow params chain.nHeight
  | none => 0

structure OnSchedule (params : Params) (chain : Chain) : Prop where
  pastGrace : (if params.fDagUseEma then max 4 params.nDagDiffWindowSize
    else params.nDagDiffWindowSize) ≤ chain.nHeight
  spaced : Spaced (params.nDagTargetSpacingMs / 1000) (sampledIntervals params chain.nHeight)
    chain.entries
  idle : sampledLoad params chain ≤ params.nLoadDiffBaseline

def Canonical (nBits : UInt32) : Prop := getCompact (setCompact nBits) = nBits

instance (nBits : UInt32) : Decidable (Canonical nBits) := inferInstanceAs (Decidable (_ = _))

theorem Spaced.cons {spacing count : Nat} {cur pprev : BlockEntry} {rest : List BlockEntry}
    (spaced : Spaced spacing (count + 1) (cur :: pprev :: rest)) :
    cur.getBlockTime - pprev.getBlockTime = (spacing : Int) ∧
      Spaced spacing count (pprev :: rest) := by
  refine ⟨spaced 0 (by omega) cur rfl pprev rfl, ?_⟩
  intro i below earlier found before link
  exact spaced (i + 1) (by omega) earlier found before link

theorem Spaced.total {spacing count : Nat} {entries : List BlockEntry} {last first : BlockEntry}
    (spaced : Spaced spacing count entries) (head : entries[0]? = some last)
    (found : entries[count]? = some first) :
    last.getBlockTime - first.getBlockTime = ((count * spacing : Nat) : Int) := by
  induction count generalizing entries last with
  | zero =>
    rw [head] at found
    cases found
    rw [Int.sub_self, Nat.zero_mul]
    rfl
  | succ count ih =>
    match entries with
    | [] => simp at head
    | [_] => simp at found
    | cur :: pprev :: rest =>
      obtain ⟨interval, before⟩ := spaced.cons
      obtain rfl : cur = last := by simpa using head
      have older : pprev.getBlockTime - first.getBlockTime = ((count * spacing : Nat) : Int) :=
        ih before rfl (by simpa using found)
      rw [Nat.succ_mul, Nat.cast_add, ← older, ← interval]
      omega

theorem Spaced.blockTimes {spacing : Nat} (positive : 1 ≤ spacing) {count : Nat}
    {entries : List BlockEntry} (spaced : Spaced spacing count entries) :
    ∀ blockTime ∈ collectBlockTimes count entries, blockTime = (spacing : Int) := by
  induction count generalizing entries with
  | zero =>
    intro blockTime sampled
    simp [collectBlockTimes] at sampled
  | succ count ih =>
    rcases entries with _ | ⟨cur, _ | ⟨pprev, rest⟩⟩
    · simp [collectBlockTimes]
    · simp [collectBlockTimes]
    · obtain ⟨interval, before⟩ := spaced.cons
      intro blockTime sampled
      rw [collectBlockTimes, List.mem_cons] at sampled
      rcases sampled with newest | older
      · rw [newest, interval, if_neg (by omega)]
      · exact ih before blockTime older

/-! ## The time ratio on schedule -/

theorem foldr_emaStep {alphaFp oneMinusAlpha : UInt64}
    (fixed : emaStep alphaFp oneMinusAlpha 10 (10 * fpScale) = 10 * fpScale)
    {blockTimes : List Int} (constant : ∀ blockTime ∈ blockTimes, blockTime = 10) :
    blockTimes.foldr (emaStep alphaFp oneMinusAlpha) (10 * fpScale) = 10 * fpScale := by
  induction blockTimes with
  | nil => rfl
  | cons blockTime older ih =>
    rw [List.foldr_cons, ih (fun sample listed => constant sample (List.mem_cons_of_mem _ listed)),
      constant blockTime List.mem_cons_self, fixed]

theorem computeBlockTimeEMA_of_spaced {chain : Chain} {lookback : Nat}
    (within : lookback ≤ chain.nHeight) (spaced : Spaced 10 lookback chain.entries)
    {halfLife : Nat} (known : halfLife = 12 ∨ halfLife = 72) :
    computeBlockTimeEMA chain halfLife lookback = 10 * fpScale := by
  have constant := spaced.blockTimes (by decide)
  unfold computeBlockTimeEMA
  dsimp only
  rw [Nat.min_eq_left within]
  cases oldest : (collectBlockTimes lookback chain.entries).getLast? with
  | none => rfl
  | some blockTime =>
    have ten : blockTime = 10 := constant blockTime (List.mem_of_getLast? oldest)
    dsimp only
    rw [ten, show UInt64.ofInt 10 * fpScale = 10 * fpScale by decide]
    rcases known with rfl | rfl
    · exact foldr_emaStep (by decide) constant
    · exact foldr_emaStep (by decide) constant

theorem timeRate_testNet {chain : Chain} (schedule : OnSchedule qbtcTestNetParams chain) :
    timeRate qbtcTestNetParams chain = 1000 := by
  have active : max 4 qbtcTestNetParams.nDagDiffWindowSize = 256 := rfl
  have count : sampledIntervals qbtcTestNetParams chain.nHeight
      = min 256 (chain.nHeight - 256) := by
    rw [sampledIntervals, if_pos (by decide), active]
    rfl
  obtain ⟨-, spaced, -⟩ := schedule
  rw [count, show qbtcTestNetParams.nDagTargetSpacingMs / 1000 = 10 by decide] at spaced
  have within : min 256 (chain.nHeight - 256) ≤ chain.nHeight := by omega
  have fast := computeBlockTimeEMA_of_spaced within spaced (Or.inl rfl)
  have slow := computeBlockTimeEMA_of_spaced within spaced (Or.inr rfl)
  have rate : timeRate qbtcTestNetParams chain
      = (emaAdjustMilli chain qbtcTestNetParams 10 (min 256 (chain.nHeight - 256))).toNat := by
    rw [timeRate, if_pos (by decide), active]
    rfl
  rw [rate, emaAdjustMilli]
  simp only [show qbtcTestNetParams.nDagEmaFastHalfLife = 12 from rfl,
    show qbtcTestNetParams.nDagEmaSlowHalfLife = 72 from rfl, fast, slow]
  decide

theorem timeRate_main {chain : Chain} (schedule : OnSchedule qbtcMainParams chain) :
    timeRate qbtcMainParams chain = 4031 := by
  have late : 4032 ≤ chain.nHeight := schedule.pastGrace
  have spaced := schedule.spaced
  rw [show sampledIntervals qbtcMainParams chain.nHeight = 4031 from rfl,
    show qbtcMainParams.nDagTargetSpacingMs / 1000 = 1 from rfl] at spaced
  obtain ⟨first, found⟩ := exists_first late
  have entry : chain.entries[4031]? = some first := by
    rw [Chain.getAncestor, if_neg (by omega),
      show chain.nHeight - ((chain.nHeight : Int) - 4031).toNat = 4031 by omega] at found
    exact found
  have total := spaced.total rfl entry
  have offset : ((qbtcMainParams.nDagDiffWindowSize : Nat) : Int) - 1 = 4031 := rfl
  rw [timeRate, if_neg (by decide), offset, found]
  dsimp only
  rw [total]
  decide

/-! ## The bits on schedule -/

theorem getCompact_eq_bits_iff {nBits : UInt32} (canonical : Canonical nBits) {n : Nat}
    (le : n ≤ setCompact nBits) (small : setCompact nBits < 2 ^ 256) :
    getCompact n = nBits ↔ n = setCompact nBits := by
  constructor
  · intro same
    have decoded := setCompact_getCompact (lt_of_le_of_lt le small)
    rw [same] at decoded
    exact le_antisymm le (decoded ▸ DigitFloor.floor_le 8 3 n)
  · rintro rfl
    exact canonical

theorem adjustLoadMult_idle {params : Params} (load : LoadParams params) {chain : Chain}
    (idle : sampledLoad params chain ≤ params.nLoadDiffBaseline)
    (short : params.nDagEmaSlowHalfLife * 2 < 2 ^ 63)
    (window : params.nDagDiffWindowSize < 2 ^ 63) : adjustLoadMult params chain = none := by
  have baseline := load.baseline
  have size := load.window
  have none_ : ∀ older : BlockEntry,
      (chain.last.mChainTxCount.toNat - older.mChainTxCount.toNat)
        / loadWindow params chain.nHeight ≤ params.nLoadDiffBaseline →
      windowLoadMult params chain.last.mChainTxCount older.mChainTxCount
        (UInt64.ofNat (loadWindow params chain.nHeight)) = none := by
    intro older average
    have fits : loadWindow params chain.nHeight < 2 ^ 64 := by
      unfold loadWindow
      split <;> omega
    rw [windowLoadMult_eq rfl (by omega) fits (by omega), if_neg (Nat.not_lt.mpr average)]
  unfold sampledLoad at idle
  unfold adjustLoadMult
  cases mode : params.fDagUseEma with
  | true =>
    have sampled : loadWindow params chain.nHeight = min (params.nDagEmaSlowHalfLife * 2)
        (chain.nHeight - max 4 params.nDagDiffWindowSize) := by
      rw [loadWindow, if_pos mode]
    rw [if_pos rfl, emaLoadMult]
    dsimp only
    rw [← sampled]
    split
    · split
      next older found =>
        rw [found] at idle
        exact none_ older idle
      · rfl
    · rfl
  | false =>
    have sampled : loadWindow params chain.nHeight = params.nDagDiffWindowSize - 1 := by
      rw [loadWindow, if_neg (by rw [mode]; decide)]
    have offset : ((params.nDagDiffWindowSize : Int) - 1)
        = ((params.nDagDiffWindowSize - 1 : Nat) : Int) := by omega
    rw [if_neg (by decide), offset, ← sampled]
    split
    next older found =>
      rw [found] at idle
      unfold windowModeLoadMult
      split
      · rw [← sampled]
        exact none_ older idle
      · rfl
    · rfl

theorem adjustedTarget_idle {params : Params} {chain : Chain}
    (idle : adjustLoadMult params chain = none)
    (within : timeTarget params chain ≤ params.powLimit) :
    adjustedTarget params chain = timeTarget params chain := by
  rw [adjustedTarget, idle, applyLoadMult, clipToLimit, if_neg (Nat.not_lt.mpr within)]

def KeepsBits (params : Params) (chain : Chain) : Prop :=
  params.fPowNoRetargeting = true ∨
    if params.fDagUseEma then 1000 ∣ setCompact chain.last.nBits
    else (chain.nHeight + 1) % params.nDagDiffWindowSize ≠ 0 ∨ setCompact chain.last.nBits = 0

instance (params : Params) (chain : Chain) : Decidable (KeepsBits params chain) :=
  inferInstanceAs (Decidable (_ ∨ ite ..))

section

variable {chain : Chain}

theorem nextWork_onSchedule_testNet (canonical : Canonical chain.last.nBits)
    (target : setCompact chain.last.nBits ≤ qbtcTestNetParams.powLimit)
    (schedule : OnSchedule qbtcTestNetParams chain) (nBlockTime : Int) :
    getNextWorkRequiredDAG chain nBlockTime qbtcTestNetParams = some chain.last.nBits ↔
      1000 ∣ setCompact chain.last.nBits := by
  have adjust := loadParams_qbtcTestNet.adjust
  have limit := adjust.powLimit
  have adjusts : Adjusts qbtcTestNetParams chain.nHeight :=
    (adjusts_ema rfl _).mpr schedule.pastGrace
  have idle := adjustLoadMult_idle loadParams_qbtcTestNet schedule.idle (by decide) (by decide)
  have scaled := timeTarget_ema adjust rfl target
  rw [timeRate_testNet schedule] at scaled
  have le : timeTarget qbtcTestNetParams chain ≤ setCompact chain.last.nBits := by
    rw [scaled]
    exact Nat.div_mul_le_self _ _
  rw [getNextWorkRequiredDAG_eq adjust, if_pos adjusts, Option.some.injEq,
    adjustedTarget_idle idle (le_trans le target),
    getCompact_eq_bits_iff canonical le (by omega), scaled]
  exact ⟨fun whole => ⟨_, (Nat.mul_comm _ _ ▸ whole).symm⟩, Nat.div_mul_cancel⟩

theorem nextWork_onSchedule_main (canonical : Canonical chain.last.nBits)
    (target : setCompact chain.last.nBits ≤ qbtcMainParams.powLimit)
    (schedule : OnSchedule qbtcMainParams chain) (nBlockTime : Int) :
    getNextWorkRequiredDAG chain nBlockTime qbtcMainParams = some chain.last.nBits ↔
      (chain.nHeight + 1) % 4032 ≠ 0 ∨ setCompact chain.last.nBits = 0 := by
  have adjust := loadParams_qbtcMain.adjust
  have limit := adjust.powLimit
  have late : 4032 ≤ chain.nHeight := schedule.pastGrace
  rw [getNextWorkRequiredDAG_eq adjust, Option.some.injEq]
  by_cases boundary : (chain.nHeight + 1) % 4032 = 0
  · have adjusts : Adjusts qbtcMainParams chain.nHeight :=
      (adjusts_window rfl _).mpr ⟨late, boundary⟩
    have idle := adjustLoadMult_idle loadParams_qbtcMain schedule.idle (by decide) (by decide)
    have scaled := timeTarget_window adjust rfl (by decide) target
    rw [timeRate_main schedule, show timeUnit qbtcMainParams = 4032 from rfl] at scaled
    have le : timeTarget qbtcMainParams chain ≤ setCompact chain.last.nBits := by omega
    rw [if_pos adjusts, adjustedTarget_idle idle (le_trans le target),
      getCompact_eq_bits_iff canonical le (by omega), scaled]
    omega
  · have between : ¬Adjusts qbtcMainParams chain.nHeight := fun adjusts =>
      boundary ((adjusts_window rfl _).mp adjusts).2
    have same : unadjustedBits qbtcMainParams chain = chain.last.nBits := by
      refine if_neg (not_or.mpr ⟨by decide, ?_⟩)
      exact Nat.not_lt.mpr late
    rw [if_neg between, same]
    exact iff_of_true rfl (Or.inl boundary)

end

/-- **A chain on schedule keeps its bits exactly if** the chain never retargets, or 1000 divides
its target (moving average), or the next block is not a retarget or the target is zero
(window). -/
theorem nextWork_onSchedule_iff (params : Params) (dag : params = qbtcTestNetParams ∨
      params = qbtcMainParams ∨ params = regTestParams) (chain : Chain) (nBlockTime : Int)
    (canonical : Canonical chain.last.nBits)
    (target : setCompact chain.last.nBits ≤ params.powLimit)
    (schedule : OnSchedule params chain) :
    getNextWorkRequiredDAG chain nBlockTime params = some chain.last.nBits ↔
      KeepsBits params chain := by
  rcases dag with rfl | rfl | rfl
  · rw [nextWork_onSchedule_testNet canonical target schedule]
    exact (or_iff_right (by decide)).symm
  · rw [nextWork_onSchedule_main canonical target schedule]
    exact (or_iff_right (by decide)).symm
  · exact iff_of_true rfl (Or.inl rfl)

def onTimeChain (nBits : UInt32) : Chain :=
  ⟨⟨DagChain.qbtcTestNet.genesisTime + 2600, nBits, 261⟩, (bootstrapChain 259).entries⟩

theorem nextWork_onSchedule_divisible :
    getNextWorkRequiredDAG (onTimeChain 0x1d03e800) 1743381810 qbtcTestNetParams
      = some 0x1d03e800 :=
  (nextWork_onSchedule_iff qbtcTestNetParams (Or.inl rfl) (onTimeChain 0x1d03e800) 1743381810
    (by decide) (by decide) ⟨by decide +kernel, by decide +kernel, by decide +kernel⟩).mpr
    (by decide +kernel)

/-- At the limit itself, with every block ten seconds after the last, the next bits are one unit
harder. -/
theorem onSchedule_drifts :
    OnSchedule qbtcTestNetParams (onTimeChain 0x1e0fffff) ∧
      Canonical (onTimeChain 0x1e0fffff).last.nBits ∧
      setCompact (onTimeChain 0x1e0fffff).last.nBits ≤ qbtcTestNetParams.powLimit ∧
      getNextWorkRequiredDAG (onTimeChain 0x1e0fffff) 1743381810 qbtcTestNetParams
        = some 0x1e0ffffe := by
  refine ⟨⟨?_, ?_, ?_⟩, ?_, ?_, ?_⟩ <;> decide +kernel

end QuantBTC.Pow
