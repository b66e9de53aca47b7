/-
# Pow.LoadCap -- the load multiplier over a whole chain

`nLoadDiffMaxMultiplier` caps the multiplier of one adjustment.  An adjustment starts from
the last block's bits, which earlier multipliers have already divided, so the multipliers of
a loaded stretch multiply up: two adjustments at the cap make the target sixteen times
harder than the same block times without load.

Two chains are mined from the same times and counts, one with the load feature and one
without.  `Spent` keeps the product of the multipliers applied so far and the number of
adjustments since the first of them, each of which may round the two targets apart.
-/
import QuantBTC.Pow.Adjustment
import QuantBTC.Pow.Presync
import QuantBTC.Theory.Drift
import QuantBTC.Theory.Runs

namespace QuantBTC.Pow

set_option autoImplicit false

open Consensus Theory

/-! ## Mining from times and counts -/

structure BlockInput where
  nTime : UInt32
  mChainTxCount : UInt64
deriving DecidableEq, Repr

def mineBlock (params : Params) (chain : Chain) (input : BlockInput) : Chain :=
  chain.extend ⟨input.nTime,
    (getNextWorkRequiredDAG chain input.nTime.toNat params).getD chain.last.nBits,
    input.mChainTxCount⟩

structure Spent where
  product : Nat := 1
  adjustments : Nat := 0
deriving DecidableEq, Repr

def Spent.next (spent : Spent) (params : Params) (chain : Chain) : Spent :=
  if Adjusts params chain.nHeight ∧ (loadScale params chain ≠ 65536 ∨ spent.adjustments ≠ 0) then
    ⟨spent.product * loadScale params chain, spent.adjustments + 1⟩
  else spent

structure SideBySide where
  loaded : Chain
  plain : Chain
  spent : Spent := {}
deriving DecidableEq, Repr

def SideBySide.mine (params : Params) (state : SideBySide) (input : BlockInput) : SideBySide :=
  ⟨mineBlock params state.loaded input, mineBlock (withoutLoad params) state.plain input,
    state.spent.next params state.loaded⟩

def WithinCap (params : Params) (state : SideBySide) (_ : BlockInput) : Prop :=
  let spent := state.spent.next params state.loaded
  spent.product ≤ params.nLoadDiffMaxMultiplier * 65536 ^ spent.adjustments ∧
    spent.adjustments ≤ 8192 ∧
    (spent.adjustments ≠ 0 → 2 ^ 32 ≤ setCompact state.loaded.last.nBits)

instance (params : Params) (state : SideBySide) (input : BlockInput) :
    Decidable (WithinCap params state input) :=
  inferInstanceAs (Decidable (_ ∧ _ ∧ _))

/-! ## One adjustment -/

theorem le_floor_mul (n : Nat) : n * 32767 ≤ DigitFloor.floor 8 3 n * 32768 := by
  have kept := DigitFloor.lt_floor_add (w := 8) (d := 3) n
  rcases eq_or_ne (DigitFloor.exponent 8 3 n) 0 with exact_ | rounds
  · rw [exact_] at kept
    omega
  · have small : 2 ^ (8 * DigitFloor.exponent 8 3 n) ≤ n / 2 ^ 15 :=
      DigitFloor.two_pow_exponent_le (by omega) (by omega) rounds
    omega

theorem divided_loss {T rate unit scaled divided load : Nat} (positive : 0 < rate)
    (most : load ≤ 262144) (units : 163840 * unit ≤ T)
    (scaling : T * rate ≤ (scaled + rate) * unit)
    (dividing : scaled * 65536 ≤ divided * load + load) :
    T * rate * 65536 * 32767 ≤ divided * load * unit * 32768 := by
  have loss : scaled * 65536 * unit ≤ (divided * load + load) * unit :=
    Nat.mul_le_mul_right unit dividing
  have loads : load * unit ≤ 262144 * (rate * unit) :=
    Nat.mul_le_mul most (Nat.le_mul_of_pos_left unit positive)
  have tiny : 163840 * unit * rate ≤ T * rate := Nat.mul_le_mul_right rate units
  have expand : (divided * load + load) * unit = divided * load * unit + load * unit :=
    Nat.add_mul ..
  have sum : (scaled + rate) * unit = scaled * unit + rate * unit := Nat.add_mul ..
  have order : scaled * 65536 * unit = scaled * unit * 65536 := Nat.mul_right_comm ..
  have swap : 163840 * unit * rate = 163840 * (rate * unit) := by
    rw [Nat.mul_assoc, Nat.mul_comm unit]
  rw [expand, order] at loss
  rw [sum] at scaling
  rw [swap] at tiny
  generalize T * rate = product at *
  generalize rate * unit = slack at *
  generalize scaled * unit = timed at *
  generalize divided * load * unit = result at *
  generalize load * unit = step at *
  linarith

section

variable {params : Params} {chain : Chain}

theorem le_divided_target (adjust : AdjustParams params) (short : timeUnit params < 2 ^ 14)
    (adjusts : Adjusts params chain.nHeight)
    (target : setCompact chain.last.nBits ≤ params.powLimit)
    (large : 2 ^ 32 ≤ setCompact chain.last.nBits) :
    setCompact chain.last.nBits * timeRate params chain * 65536 * 32767
      ≤ timeTarget params chain * 65536 / loadScale params chain * loadScale params chain
        * timeUnit params * 32768 := by
  obtain ⟨least, most⟩ := loadScale_bounds adjust chain
  have divided := Nat.lt_div_mul_add (a := timeTarget params chain * 65536)
    (show 0 < loadScale params chain by omega)
  exact divided_loss (timeRate_pos adjust adjusts) most (by omega)
    (lt_timeTarget_mul adjust short adjusts target) (le_of_lt divided)

def exactTarget (params : Params) (chain : Chain) : ℚ :=
  (setCompact chain.last.nBits : ℚ) * ((timeRate params chain : ℚ) / timeUnit params)
    / ((loadScale params chain : ℚ) / 65536)

theorem exactTarget_nonneg (params : Params) (chain : Chain) : 0 ≤ exactTarget params chain := by
  unfold exactTarget
  positivity

theorem exactTarget_le (adjust : AdjustParams params) (short : timeUnit params < 2 ^ 14)
    (adjusts : Adjusts params chain.nHeight)
    (target : setCompact chain.last.nBits ≤ params.powLimit)
    (large : 2 ^ 32 ≤ setCompact chain.last.nBits) :
    32767 / 32768 * exactTarget params chain
      ≤ ((timeTarget params chain * 65536 / loadScale params chain : Nat) : ℚ) := by
  have divided := le_divided_target adjust short adjusts target large
  generalize timeTarget params chain * 65536 / loadScale params chain = quotient at divided ⊢
  have unit : (0 : ℚ) < timeUnit params := Nat.cast_pos.mpr (timeUnit_pos adjust)
  have load : (0 : ℚ) < loadScale params chain :=
    Nat.cast_pos.mpr (lt_of_lt_of_le (by decide) (loadScale_bounds adjust chain).1)
  have fraction : 32767 / 32768 * exactTarget params chain
      = (setCompact chain.last.nBits * timeRate params chain * 65536 * 32767 : ℚ)
        / (loadScale params chain * timeUnit params * 32768) := by
    unfold exactTarget
    field_simp
  rw [fraction, div_le_iff₀ (by positivity)]
  calc (setCompact chain.last.nBits * timeRate params chain * 65536 * 32767 : ℚ)
      ≤ quotient * loadScale params chain * timeUnit params * 32768 := by exact_mod_cast divided
    _ = quotient * (loadScale params chain * timeUnit params * 32768) := by ring

theorem le_adjustedTarget (adjust : AdjustParams params) (short : timeUnit params < 2 ^ 14)
    (adjusts : Adjusts params chain.nHeight)
    (target : setCompact chain.last.nBits ≤ params.powLimit)
    (large : 2 ^ 32 ≤ setCompact chain.last.nBits) :
    (1 - 1 / 16384) * min (exactTarget params chain) (params.powLimit : ℚ)
      ≤ (setCompact (getCompact (adjustedTarget params chain)) : ℚ) := by
  have limit := adjust.powLimit
  have within : adjustedTarget params chain ≤ params.powLimit := clipToLimit_le _ _
  have rounded := le_floor_mul (adjustedTarget params chain)
  rw [← setCompact_getCompact (by omega)] at rounded
  have encoded : (adjustedTarget params chain : ℚ) * 32767
      ≤ setCompact (getCompact (adjustedTarget params chain)) * 32768 := by exact_mod_cast rounded
  have quotient := exactTarget_le adjust short adjusts target large
  have clipped : (adjustedTarget params chain : ℚ)
      = min ((timeTarget params chain * 65536 / loadScale params chain : Nat) : ℚ)
        params.powLimit := by
    rw [adjustedTarget_eq adjust target, clipToLimit, ← Nat.cast_min]
    split
    next above => rw [Nat.min_eq_right (le_of_lt above)]
    next below => rw [Nat.min_eq_left (Nat.not_lt.mp below)]
  have top : (0 : ℚ) ≤ params.powLimit := Nat.cast_nonneg _
  have nonneg : 0 ≤ min (exactTarget params chain) (params.powLimit : ℚ) :=
    le_min (exactTarget_nonneg params chain) top
  have kept : 32767 / 32768 * min (exactTarget params chain) (params.powLimit : ℚ)
      ≤ adjustedTarget params chain := by
    rw [clipped]
    apply le_min
    · exact le_trans (mul_le_mul_of_nonneg_left (min_le_left _ _) (by norm_num)) quotient
    · exact le_trans (mul_le_mul_of_nonneg_left (min_le_right _ _) (by norm_num)) (by linarith)
  linarith

theorem adjustLoadMult_withoutLoad (params : Params) (chain : Chain) :
    adjustLoadMult (withoutLoad params) chain = none := by
  have off : ¬(withoutLoad params).nLoadDiffBaseline > 0 := Nat.lt_irrefl 0
  unfold adjustLoadMult emaLoadMult windowModeLoadMult
  split
  · rw [if_neg (fun on => off on.1)]
  · split
    · rw [if_neg (fun on => off on.1)]
    · rfl

theorem adjustedTarget_withoutLoad (params : Params) (chain : Chain) :
    adjustedTarget (withoutLoad params) chain
      = clipToLimit (timeTarget params chain) params.powLimit := by
  rw [adjustedTarget, adjustLoadMult_withoutLoad]
  rfl

theorem adjustedTarget_withoutLoad_le (adjust : AdjustParams params)
    (short : timeUnit params < 2 ^ 14)
    (target : setCompact chain.last.nBits ≤ params.powLimit) :
    (setCompact (getCompact (adjustedTarget (withoutLoad params) chain)) : ℚ)
      ≤ min ((setCompact chain.last.nBits : ℚ) * ((timeRate params chain : ℚ) / timeUnit params))
        params.powLimit := by
  have limit := adjust.powLimit
  have unit : (0 : ℚ) < timeUnit params := Nat.cast_pos.mpr (timeUnit_pos adjust)
  have scaled := timeTarget_mul_le adjust short target
  have within := clipToLimit_le (timeTarget params chain) params.powLimit
  have below : clipToLimit (timeTarget params chain) params.powLimit ≤ timeTarget params chain := by
    unfold clipToLimit
    split <;> omega
  rw [adjustedTarget_withoutLoad, setCompact_getCompact (by omega)]
  have rounded := DigitFloor.floor_le 8 3 (clipToLimit (timeTarget params chain) params.powLimit)
  apply le_min
  · rw [← mul_div_assoc, le_div_iff₀ unit]
    exact_mod_cast le_trans (Nat.mul_le_mul_right _ (le_trans rounded below)) scaled
  · exact_mod_cast le_trans rounded within

end

/-! ## Whole chains -/

section

variable {params : Params}

theorem bits_mineBlock (adjust : AdjustParams params) (chain : Chain) (input : BlockInput) :
    (mineBlock params chain input).last.nBits
      = if Adjusts params chain.nHeight then getCompact (adjustedTarget params chain)
        else unadjustedBits params chain := by
  rw [mineBlock, Chain.last_extend, getNextWorkRequiredDAG_eq adjust]
  rfl

theorem target_mineBlock (adjust : AdjustParams params) {chain : Chain} (input : BlockInput)
    (target : setCompact chain.last.nBits ≤ params.powLimit) :
    setCompact (mineBlock params chain input).last.nBits ≤ params.powLimit := by
  have limit := adjust.powLimit
  have decoded : ∀ n ≤ params.powLimit, setCompact (getCompact n) ≤ params.powLimit := by
    intro n within
    rw [setCompact_getCompact (by omega)]
    exact le_trans (DigitFloor.floor_le _ _ _) within
  rw [bits_mineBlock adjust]
  split
  · exact decoded _ (clipToLimit_le _ _)
  · unfold unadjustedBits
    split
    · exact decoded _ (le_refl _)
    · exact target

def Spent.factor (spent : Spent) : ℚ := spent.product / 65536 ^ spent.adjustments

structure Bounded (params : Params) (state : SideBySide) : Prop where
  times : state.loaded.entries.map (·.nTime) = state.plain.entries.map (·.nTime)
  loaded_le : setCompact state.loaded.last.nBits ≤ params.powLimit
  plain_le : setCompact state.plain.last.nBits ≤ params.powLimit
  counted : state.spent.adjustments ≤ 8192
  factor_ge : 1 ≤ state.spent.factor
  factor_le : state.spent.factor ≤ params.nLoadDiffMaxMultiplier
  fresh : state.spent.adjustments = 0 → state.loaded.last.nBits = state.plain.last.nBits
  bound : (setCompact state.plain.last.nBits : ℚ) * (1 - state.spent.adjustments / 16384)
    ≤ state.spent.factor * setCompact state.loaded.last.nBits

variable {state : SideBySide}

theorem Bounded.nHeight_eq (bounded : Bounded params state) :
    state.loaded.nHeight = state.plain.nHeight := by
  have lengths := congrArg List.length bounded.times
  simpa [Chain.entries, Chain.nHeight] using lengths

theorem bound_of_eq {T : Nat} {factor : ℚ} {adjustments : Nat} (factor_ge : 1 ≤ factor) :
    (T : ℚ) * (1 - adjustments / 16384) ≤ factor * T := by
  have share : (0 : ℚ) ≤ adjustments / 16384 := by positivity
  have target : (0 : ℚ) ≤ T := Nat.cast_nonneg T
  calc (T : ℚ) * (1 - adjustments / 16384) ≤ T * 1 := by
        apply mul_le_mul_of_nonneg_left _ target
        linarith
    _ = 1 * T := by ring
    _ ≤ factor * T := mul_le_mul_of_nonneg_right factor_ge target

theorem Bounded.unadjusted (adjust : AdjustParams params) (bounded : Bounded params state)
    (still : ¬Adjusts params state.loaded.nHeight) (input : BlockInput) :
    Bounded params (state.mine params input) := by
  have spent : (state.mine params input).spent = state.spent := if_neg fun both => still both.1
  have heights := bounded.nHeight_eq
  have plain : ¬Adjusts (withoutLoad params) state.plain.nHeight := by
    rwa [← heights]
  have loadedBits : (state.mine params input).loaded.last.nBits
      = unadjustedBits params state.loaded := by
    rw [SideBySide.mine, bits_mineBlock adjust, if_neg still]
  have plainBits : (state.mine params input).plain.last.nBits
      = unadjustedBits params state.plain := by
    rw [SideBySide.mine, bits_mineBlock adjust.withoutLoad, if_neg plain]
    rfl
  refine ⟨?_, target_mineBlock adjust input bounded.loaded_le,
    target_mineBlock adjust.withoutLoad input bounded.plain_le, ?_, ?_, ?_, ?_, ?_⟩
  · exact congrArg (input.nTime :: ·) bounded.times
  · rw [spent]
    exact bounded.counted
  · rw [spent]
    exact bounded.factor_ge
  · rw [spent]
    exact bounded.factor_le
  · rw [spent, loadedBits, plainBits, unadjustedBits, unadjustedBits, heights]
    intro none_
    split
    · rfl
    · exact bounded.fresh none_
  · rw [spent, loadedBits, plainBits, unadjustedBits, unadjustedBits, heights]
    split
    · exact bound_of_eq bounded.factor_ge
    · exact bounded.bound

theorem timeTarget_congr (adjust : AdjustParams params) (short : timeUnit params < 2 ^ 14)
    {a b : Chain} (times : a.entries.map (·.nTime) = b.entries.map (·.nTime))
    (bits : a.last.nBits = b.last.nBits)
    (target : setCompact a.last.nBits ≤ params.powLimit) :
    timeTarget params a = timeTarget params b := by
  have rate := timeRate_congr params times
  have targetB : setCompact b.last.nBits ≤ params.powLimit := bits ▸ target
  cases mode : params.fDagUseEma with
  | true => rw [timeTarget_ema adjust mode target, timeTarget_ema adjust mode targetB, bits, rate]
  | false =>
    rw [timeTarget_window adjust mode short target, timeTarget_window adjust mode short targetB,
      bits, rate]

theorem Bounded.unloaded (adjust : AdjustParams params) (short : timeUnit params < 2 ^ 14)
    (bounded : Bounded params state) (adjusts : Adjusts params state.loaded.nHeight)
    (idle : loadScale params state.loaded = 65536) (none_ : state.spent.adjustments = 0)
    (input : BlockInput) : Bounded params (state.mine params input) := by
  have spent : (state.mine params input).spent = state.spent := by
    refine if_neg ?_
    rintro ⟨-, loaded | some_⟩
    · exact loaded idle
    · exact some_ none_
  have plain : Adjusts (withoutLoad params) state.plain.nHeight := by
    rwa [← bounded.nHeight_eq]
  have scaled := timeTarget_congr adjust short bounded.times (bounded.fresh none_)
    bounded.loaded_le
  have same : (state.mine params input).loaded.last.nBits
      = (state.mine params input).plain.last.nBits := by
    rw [SideBySide.mine, bits_mineBlock adjust, bits_mineBlock adjust.withoutLoad, if_pos adjusts,
      if_pos plain, adjustedTarget_withoutLoad, adjustedTarget_eq adjust bounded.loaded_le, idle,
      Nat.mul_div_cancel _ (by decide), scaled]
  refine ⟨congrArg (input.nTime :: ·) bounded.times,
    target_mineBlock adjust input bounded.loaded_le,
    target_mineBlock adjust.withoutLoad input bounded.plain_le, ?_, ?_, ?_, fun _ => same, ?_⟩
  · rw [spent]
    exact bounded.counted
  · rw [spent]
    exact bounded.factor_ge
  · rw [spent]
    exact bounded.factor_le
  · rw [spent, same]
    exact bound_of_eq bounded.factor_ge

theorem Spent.factor_mul (spent : Spent) (load : Nat) :
    (⟨spent.product * load, spent.adjustments + 1⟩ : Spent).factor
      = spent.factor * ((load : ℚ) / 65536) := by
  unfold factor
  push_cast
  rw [pow_succ]
  field_simp

theorem Bounded.adjusted (adjust : AdjustParams params) (short : timeUnit params < 2 ^ 14)
    (bounded : Bounded params state) (adjusts : Adjusts params state.loaded.nHeight)
    (spends : loadScale params state.loaded ≠ 65536 ∨ state.spent.adjustments ≠ 0)
    {input : BlockInput} (within : WithinCap params state input) :
    Bounded params (state.mine params input) := by
  have spent : state.spent.next params state.loaded
      = ⟨state.spent.product * loadScale params state.loaded, state.spent.adjustments + 1⟩ :=
    if_pos ⟨adjusts, spends⟩
  obtain ⟨cap, counted, large⟩ := within
  rw [spent] at cap counted large
  have large := large (Nat.succ_ne_zero _)
  have plain : Adjusts (withoutLoad params) state.plain.nHeight := by
    rwa [← bounded.nHeight_eq]
  obtain ⟨least, -⟩ := loadScale_bounds adjust state.loaded
  have multiplier : (1 : ℚ) ≤ (loadScale params state.loaded : ℚ) / 65536 := by
    rw [le_div_iff₀ (by norm_num), one_mul]
    exact_mod_cast least
  have few : (state.spent.adjustments : ℚ) / 16384 ≤ 1 := by
    rw [div_le_iff₀ (by norm_num), one_mul]
    exact_mod_cast le_trans bounded.counted (by decide)
  have after : (state.mine params input).spent.factor
      = state.spent.factor * ((loadScale params state.loaded : ℚ) / 65536) := by
    rw [← Spent.factor_mul, ← spent]
    rfl
  have total : (state.mine params input).spent.adjustments = state.spent.adjustments + 1 :=
    congrArg Spent.adjustments spent
  have low := le_adjustedTarget adjust short adjusts bounded.loaded_le large
  have high := adjustedTarget_withoutLoad_le adjust short bounded.plain_le
  rw [← timeRate_congr params bounded.times] at high
  refine ⟨congrArg (input.nTime :: ·) bounded.times,
    target_mineBlock adjust input bounded.loaded_le,
    target_mineBlock adjust.withoutLoad input bounded.plain_le, ?_, ?_, ?_, ?_, ?_⟩
  · rwa [total]
  · rw [after]
    exact one_le_mul_of_one_le_of_one_le bounded.factor_ge multiplier
  · have product : (state.mine params input).spent
        = ⟨state.spent.product * loadScale params state.loaded, state.spent.adjustments + 1⟩ := spent
    rw [product, Spent.factor, div_le_iff₀ (by positivity)]
    exact_mod_cast cap
  · intro zero
    rw [total] at zero
    omega
  · rw [after, total, SideBySide.mine, bits_mineBlock adjust, bits_mineBlock adjust.withoutLoad,
      if_pos adjusts, if_pos plain, Nat.cast_succ, add_div]
    exact Drift.bound_step bounded.factor_ge multiplier (by positivity) (by positivity) few
      (by norm_num) (by norm_num) bounded.bound low high (Nat.cast_nonneg _)

/-- **One block.** -/
theorem Bounded.mine (adjust : AdjustParams params) (short : timeUnit params < 2 ^ 14)
    {input : BlockInput} (bounded : Bounded params state) (within : WithinCap params state input) :
    Bounded params (state.mine params input) := by
  by_cases adjusts : Adjusts params state.loaded.nHeight
  · by_cases spends : loadScale params state.loaded ≠ 65536 ∨ state.spent.adjustments ≠ 0
    · exact bounded.adjusted adjust short adjusts spends within
    · rw [not_or, not_not, not_not] at spends
      exact bounded.unloaded adjust short adjusts spends.1 spends.2 input
  · exact bounded.unadjusted adjust adjusts input

def SideBySide.start (genesis : BlockEntry) : SideBySide := ⟨⟨genesis, []⟩, ⟨genesis, []⟩, {}⟩

theorem Bounded.start (adjust : AdjustParams params) {genesis : BlockEntry}
    (target : setCompact genesis.nBits ≤ params.powLimit) :
    Bounded params (.start genesis) := by
  have factor : (SideBySide.start genesis).spent.factor = 1 := by
    simp [SideBySide.start, Spent.factor]
  refine ⟨rfl, target, target, Nat.zero_le _, le_of_eq factor.symm, ?_, fun _ => rfl, ?_⟩
  · rw [factor, adjust.maxMultiplier]
    norm_num
  · exact bound_of_eq (le_of_eq factor.symm)

theorem Bounded.le_cap (bounded : Bounded params state) :
    setCompact state.plain.last.nBits
      ≤ 2 * params.nLoadDiffMaxMultiplier * setCompact state.loaded.last.nBits := by
  have half : (1 : ℚ) / 2 ≤ 1 - state.spent.adjustments / 16384 := by
    have few : (state.spent.adjustments : ℚ) ≤ 8192 := by exact_mod_cast bounded.counted
    linarith
  have plain : (0 : ℚ) ≤ setCompact state.plain.last.nBits := Nat.cast_nonneg _
  have loaded : (0 : ℚ) ≤ setCompact state.loaded.last.nBits := Nat.cast_nonneg _
  have bound : (setCompact state.plain.last.nBits : ℚ)
      ≤ 2 * params.nLoadDiffMaxMultiplier * setCompact state.loaded.last.nBits :=
    calc (setCompact state.plain.last.nBits : ℚ)
        = 2 * (setCompact state.plain.last.nBits * (1 / 2)) := by ring
      _ ≤ 2 * (setCompact state.plain.last.nBits * (1 - state.spent.adjustments / 16384)) := by
          have := mul_le_mul_of_nonneg_left half plain
          linarith
      _ ≤ 2 * (state.spent.factor * setCompact state.loaded.last.nBits) := by
          linarith [bounded.bound]
      _ ≤ 2 * (params.nLoadDiffMaxMultiplier * setCompact state.loaded.last.nBits) := by
          have := mul_le_mul_of_nonneg_right bounded.factor_le loaded
          linarith
      _ = 2 * params.nLoadDiffMaxMultiplier * setCompact state.loaded.last.nBits := by ring
  exact_mod_cast bound

theorem foldl_mine (inputs : List BlockInput) (state : SideBySide) :
    (inputs.foldl (SideBySide.mine params) state).loaded
        = inputs.foldl (mineBlock params) state.loaded ∧
      (inputs.foldl (SideBySide.mine params) state).plain
        = inputs.foldl (mineBlock (withoutLoad params)) state.plain := by
  induction inputs generalizing state with
  | nil => exact ⟨rfl, rfl⟩
  | cons input inputs ih => exact ih (state.mine params input)

end

/-- **The load multipliers stay within the cap where their product does.**  For every DAG chain,
every first block and every sequence of times and counts: if each block is within the cap, then
at every height the target is at most twice the cap harder than without the load feature. -/
theorem loadCap_of_steps (params : Params) (dag : params = qbtcTestNetParams ∨
      params = qbtcMainParams ∨ params = regTestParams) (genesis : BlockEntry)
    (target : setCompact genesis.nBits ≤ params.powLimit) (inputs : List BlockInput)
    (meets : Runs.StepsMeet (SideBySide.mine params) (WithinCap params) (.start genesis) inputs) :
    ∀ done, done <+: inputs →
      setCompact (done.foldl (mineBlock (withoutLoad params)) ⟨genesis, []⟩).last.nBits
        ≤ 2 * params.nLoadDiffMaxMultiplier *
          setCompact (done.foldl (mineBlock params) ⟨genesis, []⟩).last.nBits := by
  have capped : ∀ network : DagChain, network.consensus = params → ∀ done, done <+: inputs →
      setCompact (done.foldl (mineBlock (withoutLoad params)) ⟨genesis, []⟩).last.nBits
        ≤ 2 * params.nLoadDiffMaxMultiplier *
          setCompact (done.foldl (mineBlock params) ⟨genesis, []⟩).last.nBits := by
    rintro network rfl done isPrefix
    have adjust := adjustParams_network network
    have short : timeUnit network.consensus < 2 ^ 14 := by cases network <;> decide
    have bounded := meets.throughout (Bounded network.consensus)
      (fun _ _ before within => before.mine adjust short within) (.start adjust target) done isPrefix
    have le := bounded.le_cap
    rwa [(foldl_mine done _).1, (foldl_mine done _).2] at le
  rcases dag with rfl | rfl | rfl
  · exact capped .qbtcTestNet rfl
  · exact capped .qbtcMain rfl
  · intro done _
    exact Nat.le_mul_of_pos_left _ (by decide)

def testNetGenesis : BlockEntry :=
  ⟨DagChain.qbtcTestNet.genesisTime, DagChain.qbtcTestNet.genesisBits, 1⟩

def loadedInputs (perBlock count : Nat) : List BlockInput :=
  (List.range (256 + count)).map fun i =>
    ⟨DagChain.qbtcTestNet.genesisTime + 10 * UInt32.ofNat (i + 1),
      UInt64.ofNat (i + 2 + (i + 1 - 256) * (perBlock - 1))⟩

theorem loadCap_250_per_block :
    setCompact ((loadedInputs 250 3).foldl (mineBlock (withoutLoad qbtcTestNetParams))
        ⟨testNetGenesis, []⟩).last.nBits
      ≤ 2 * qbtcTestNetParams.nLoadDiffMaxMultiplier *
        setCompact ((loadedInputs 250 3).foldl (mineBlock qbtcTestNetParams)
          ⟨testNetGenesis, []⟩).last.nBits :=
  loadCap_of_steps qbtcTestNetParams (Or.inl rfl) testNetGenesis (by decide) (loadedInputs 250 3)
    (by decide +kernel) (loadedInputs 250 3) (List.prefix_refl _)

/-- Three blocks of 3200 transactions after the grace period, all on schedule: the target is
sixteen times harder than without the load feature, twice what cap and rounding allow. -/
theorem loadCap_exceeded :
    ¬setCompact ((loadedInputs 3200 3).foldl (mineBlock (withoutLoad qbtcTestNetParams))
        ⟨testNetGenesis, []⟩).last.nBits
      ≤ 2 * qbtcTestNetParams.nLoadDiffMaxMultiplier *
        setCompact ((loadedInputs 3200 3).foldl (mineBlock qbtcTestNetParams)
          ⟨testNetGenesis, []⟩).last.nBits := by
  decide +kernel

end QuantBTC.Pow
