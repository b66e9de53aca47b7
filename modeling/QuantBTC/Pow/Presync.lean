/-
# Pow.Presync -- the headers presync check against the difficulty rule

While headers are presynced, `PermittedDifficultyTransition` is the only difficulty
check: between retargets of `DifficultyAdjustmentInterval` blocks `nBits` must not
change, and at a retarget it may change by a factor of four.  The DAG chains do not
use that schedule, so the two rules can disagree on a chain whose every `nBits` is
what `GetNextWorkRequired` demands (`Required`).
-/
import QuantBTC.Pow.Adjustment

namespace QuantBTC.Pow

set_option autoImplicit false

open Consensus Theory

/-! ## Chains the difficulty rule accepts -/

inductive Required (network : DagChain) : Chain → Prop
  | genesis (entry : BlockEntry) (bits : entry.nBits = network.genesisBits) :
      Required network ⟨entry, []⟩
  | extend (chain : Chain) (entry : BlockEntry) (required : Required network chain)
      (bits : getNextWorkRequired none chain entry.getBlockTime network.consensus
        = some entry.nBits) :
      Required network (chain.extend entry)

def PresyncAccepts (params : Params) (chain : Chain) : Prop :=
  ∀ nTime : UInt32, ∃ nBits, getNextWorkRequired none chain nTime.toNat params = some nBits ∧
    permittedDifficultyTransition params (chain.nHeight + 1) chain.last.nBits nBits = true

def PresyncAgrees (params : Params) (chain : Chain) : Prop :=
  ∀ segment : Chain, segment.entries <:+ chain.entries → PresyncAccepts params segment

variable {chain : Chain}

theorem segment_extend {segment : Chain} {entry : BlockEntry}
    (suffix : segment.entries <:+ (chain.extend entry).entries) :
    segment = chain.extend entry ∨ segment.entries <:+ chain.entries := by
  rcases List.suffix_cons_iff.mp suffix with whole | shorter
  · left
    obtain ⟨last, ancestors⟩ := segment
    simp only [Chain.entries, List.cons.injEq] at whole
    obtain ⟨rfl, rfl⟩ := whole
    rfl
  · exact Or.inr shorter

theorem Required.segment {network : DagChain} (required : Required network chain) {segment : Chain}
    (suffix : segment.entries <:+ chain.entries) : Required network segment := by
  induction required with
  | genesis entry bits =>
    obtain ⟨last, ancestors⟩ := segment
    rcases List.suffix_cons_iff.mp suffix with whole | shorter
    · simp only [Chain.entries, List.cons.injEq] at whole
      obtain ⟨rfl, rfl⟩ := whole
      exact .genesis _ bits
    · simp [Chain.entries] at shorter
  | extend chain entry required bits ih =>
    rcases segment_extend suffix with rfl | shorter
    · exact .extend chain entry required bits
    · exact ih shorter

theorem nHeight_le_of_suffix {segment : Chain} (suffix : segment.entries <:+ chain.entries) :
    segment.nHeight ≤ chain.nHeight := by
  have := suffix.length_le
  simp only [Chain.entries, List.length_cons] at this
  simp only [Chain.nHeight]
  omega

theorem exists_segment (chain : Chain) {height : Nat} (le : height ≤ chain.nHeight) :
    ∃ segment : Chain, segment.entries <:+ chain.entries ∧ segment.nHeight = height := by
  obtain ⟨last, ancestors⟩ := chain
  induction ancestors generalizing last with
  | nil => exact ⟨_, List.suffix_refl _, by simp [Chain.nHeight] at le ⊢; omega⟩
  | cons pprev rest ih =>
    rcases Nat.lt_or_ge height (rest.length + 1) with lower | top
    · obtain ⟨segment, suffix, at_height⟩ := ih pprev (by simp [Chain.nHeight]; omega)
      exact ⟨segment, suffix.trans (List.suffix_cons _ _), at_height⟩
    · refine ⟨_, List.suffix_refl _, ?_⟩
      simp [Chain.nHeight] at le ⊢
      omega

/-! ## The test chain -/

theorem getNextWorkRequired_testNet (chain : Chain) (nTime : Int) :
    getNextWorkRequired none chain nTime DagChain.qbtcTestNet.consensus
      = some (nextWorkEma chain nTime qbtcTestNetParams 10) := rfl

theorem getCompact_limit_testNet : getCompact qbtcTestNetParams.powLimit = 0x1e0fffff := by decide

theorem nextWorkEma_of_lt (grace : chain.nHeight < 256) (nTime : Int) :
    nextWorkEma chain nTime qbtcTestNetParams 10 = 0x1e0fffff := by
  have active : max 4 qbtcTestNetParams.nDagDiffWindowSize = 256 := rfl
  simp only [nextWorkEma, active, grace, if_true, getCompact_limit_testNet]

theorem required_testNet_bits (required : Required .qbtcTestNet chain) (grace : chain.nHeight ≤ 256) :
    chain.last.nBits = 0x1e0fffff := by
  cases required with
  | genesis entry bits => exact bits
  | extend chain entry required bits =>
    rw [getNextWorkRequired_testNet, nextWorkEma_of_lt grace] at bits
    exact (Option.some.inj bits).symm

theorem computeBlockTimeEMA_zero (chain : Chain) (halfLife : Nat) :
    computeBlockTimeEMA chain halfLife 0 = 10 * fpScale := by
  simp [computeBlockTimeEMA, collectBlockTimes]

theorem windowLoadMult_self (params : Params) (tx window : UInt64) :
    windowLoadMult params tx tx window = none := by
  simp [windowLoadMult]

theorem emaLoadMult_zero (chain : Chain) (params : Params) : emaLoadMult chain params 0 = none := by
  simp only [emaLoadMult, Nat.min_zero, Nat.cast_zero, sub_zero, Chain.getAncestor_self,
    windowLoadMult_self, ite_self]

theorem nextWorkEma_activation (active : chain.nHeight = 256) (bits : chain.last.nBits = 0x1e0fffff)
    (nTime : Int) : nextWorkEma chain nTime qbtcTestNetParams 10 = 0x1e0ffffe := by
  have adjust : emaAdjustMilli chain qbtcTestNetParams 10 0 = 1000 := by
    simp only [emaAdjustMilli, computeBlockTimeEMA_zero]
    decide
  have window : max 4 qbtcTestNetParams.nDagDiffWindowSize = 256 := rfl
  have noExceptions : qbtcTestNetParams.fPowAllowMinDifficultyBlocks = false := rfl
  simp only [nextWorkEma, window, active, lt_irrefl, if_false, noExceptions, Bool.false_eq_true,
    false_and, Nat.sub_self, Nat.min_zero, adjust, emaLoadMult_zero, bits]
  decide

variable (height : Nat)

theorem permitted_testNet_limit :
    permittedDifficultyTransition qbtcTestNetParams height 0x1e0fffff 0x1e0fffff = true := by
  have interval : qbtcTestNetParams.difficultyAdjustmentInterval = 128 := rfl
  by_cases retarget : height % 128 = 0
  · simp only [permittedDifficultyTransition, interval, retarget]
    decide
  · simp [permittedDifficultyTransition, interval, retarget]

theorem presyncAgrees_testNet_iff (required : Required .qbtcTestNet chain) :
    PresyncAgrees DagChain.qbtcTestNet.consensus chain ↔ chain.nHeight < 256 := by
  constructor
  · intro agrees
    by_contra late
    obtain ⟨segment, suffix, height⟩ := exists_segment chain (show 256 ≤ chain.nHeight by omega)
    have bits := required_testNet_bits (required.segment suffix) (by omega)
    obtain ⟨nBits, next, permitted⟩ := agrees segment suffix 0
    rw [getNextWorkRequired_testNet, nextWorkEma_activation height bits] at next
    cases next
    rw [height, bits] at permitted
    revert permitted
    decide
  · intro early segment suffix nTime
    have height := nHeight_le_of_suffix suffix
    have bits := required_testNet_bits (required.segment suffix) (by omega)
    refine ⟨0x1e0fffff, ?_, ?_⟩
    · rw [getNextWorkRequired_testNet, nextWorkEma_of_lt (by omega)]
    · rw [bits]
      exact permitted_testNet_limit _

/-! ## The main chain -/

theorem getNextWorkRequired_main (chain : Chain) (nTime : Int) :
    getNextWorkRequired none chain nTime DagChain.qbtcMain.consensus
      = nextWorkWindow chain nTime qbtcMainParams 1 := rfl

theorem powLimit_main_lt : qbtcMainParams.powLimit < 2 ^ 224 := by decide

theorem getCompact_limit_main : getCompact qbtcMainParams.powLimit = 0x1d00ffff := by decide

def retargetTimespan (last first : BlockEntry) : Nat :=
  (clampTimespan (last.getBlockTime - first.getBlockTime) 4032).toNat

def retargetLoad (last first : BlockEntry) : Nat :=
  ((windowModeLoadMult last first qbtcMainParams).getD fpScale).toNat

def Retargets (chain : Chain) : Prop := 4032 ≤ chain.nHeight ∧ (chain.nHeight + 1) % 4032 = 0

def MildRetarget (chain : Chain) : Prop :=
  Retargets chain → ∀ first, chain.getAncestor ((chain.nHeight : Int) - 4031) = some first →
    DigitFloor.floor 8 3 (setCompact chain.last.nBits / 4) * retargetLoad chain.last first
      ≤ setCompact chain.last.nBits * retargetTimespan chain.last first / 4032 * 65536

theorem retargetTimespan_bounds (last first : BlockEntry) :
    1008 ≤ retargetTimespan last first ∧ retargetTimespan last first ≤ 16128 := by
  simp only [retargetTimespan, clampTimespan]
  split <;> split <;> omega

theorem scaleTarget_retarget {T : Nat} (lt : T < 2 ^ 224) (last first : BlockEntry) :
    scaleTarget T (clampTimespan (last.getBlockTime - first.getBlockTime) 4032) 4032
      = T * retargetTimespan last first / 4032 := by
  obtain ⟨low, high⟩ := retargetTimespan_bounds last first
  have exact32 : (UInt32.ofInt (clampTimespan (last.getBlockTime - first.getBlockTime) 4032)).toNat
      = retargetTimespan last first := by
    simp only [retargetTimespan] at *
    simp only [UInt32.ofInt, UInt32.toNat_ofNat']
    omega
  have fits : T * retargetTimespan last first < 2 ^ 256 :=
    calc T * retargetTimespan last first ≤ T * 16128 := Nat.mul_le_mul_left T high
      _ < 2 ^ 256 := by omega
  rw [scaleTarget, exact32, mul256_of_lt fits]

theorem le_retargetLoad (last first : BlockEntry) : 65536 ≤ retargetLoad last first := by
  simp only [retargetLoad]
  cases loaded : windowModeLoadMult last first qbtcMainParams with
  | none => decide
  | some loadMult =>
    simp only [windowModeLoadMult] at loaded
    split at loaded
    · exact (windowLoadMult_bounds rfl loaded).1
    · cases loaded

/-! ### The permitted range -/

structure MainTarget (T : Nat) : Prop where
  rounded : DigitFloor.floor 8 3 T = T
  le_limit : T ≤ qbtcMainParams.powLimit

theorem MainTarget.lt {T : Nat} (target : MainTarget T) : T < 2 ^ 224 :=
  lt_of_le_of_lt target.le_limit powLimit_main_lt

theorem clipToLimit_le (x limit : Nat) : clipToLimit x limit ≤ limit := by
  simp only [clipToLimit]
  split <;> omega

theorem setCompact_getCompact_clip (x : Nat) :
    setCompact (getCompact (clipToLimit x qbtcMainParams.powLimit))
      = DigitFloor.floor 8 3 (clipToLimit x qbtcMainParams.powLimit) := by
  apply setCompact_getCompact
  exact lt_of_le_of_lt (clipToLimit_le _ _) (by decide)

theorem mainTarget_getCompact_clip (x : Nat) :
    MainTarget (setCompact (getCompact (clipToLimit x qbtcMainParams.powLimit))) := by
  rw [setCompact_getCompact_clip]
  exact ⟨DigitFloor.floor_floor (by decide) (by decide) _,
    le_trans (DigitFloor.floor_le _ _ _) (clipToLimit_le _ _)⟩

theorem permitted_main_retarget_iff {height : Nat} (retarget : height % 2016 = 0)
    {old new : UInt32} (target : MainTarget (setCompact old)) {x : Nat}
    (observed : setCompact new = DigitFloor.floor 8 3 (clipToLimit x qbtcMainParams.powLimit))
    (le : x ≤ setCompact old * 4) :
    permittedDifficultyTransition qbtcMainParams height old new = true
      ↔ DigitFloor.floor 8 3 (setCompact old / 4) ≤ x := by
  have lt := target.lt
  have le_limit := target.le_limit
  have interval : qbtcMainParams.difficultyAdjustmentInterval = 2016 := rfl
  have timespan : qbtcMainParams.nPowTargetTimespan = 2016 := rfl
  have noExceptions : qbtcMainParams.fPowAllowMinDifficultyBlocks = false := rfl
  have largest : scaleTarget (setCompact old) ((2016 * 4 : Nat) : Int) 2016 = setCompact old * 4 := by
    have : (UInt32.ofInt ((2016 * 4 : Nat) : Int)).toNat = 8064 := by decide
    rw [scaleTarget, this, mul256_of_lt (by omega)]
    omega
  have smallest : scaleTarget (setCompact old) ((2016 / 4 : Nat) : Int) 2016 = setCompact old / 4 := by
    have : (UInt32.ofInt ((2016 / 4 : Nat) : Int)).toNat = 504 := by decide
    rw [scaleTarget, this, mul256_of_lt (by omega)]
    omega
  have quarter : setCompact (getCompact (clipToLimit (setCompact old / 4) qbtcMainParams.powLimit))
      = DigitFloor.floor 8 3 (setCompact old / 4) := by
    rw [setCompact_getCompact_clip, clipToLimit, if_neg (by omega)]
  have upper : ¬ DigitFloor.floor 8 3 (clipToLimit (setCompact old * 4) qbtcMainParams.powLimit)
      < DigitFloor.floor 8 3 (clipToLimit x qbtcMainParams.powLimit) :=
    not_lt_of_ge (DigitFloor.floor_mono (by decide) (by decide) (clipToLimit_mono _ le))
  simp only [permittedDifficultyTransition, noExceptions, Bool.false_eq_true, if_false, interval,
    retarget, if_true, timespan, largest, smallest, quarter, setCompact_getCompact_clip, observed,
    upper]
  have lower : DigitFloor.floor 8 3 (setCompact old / 4)
        ≤ DigitFloor.floor 8 3 (clipToLimit x qbtcMainParams.powLimit)
      ↔ DigitFloor.floor 8 3 (setCompact old / 4) ≤ x := by
    rw [DigitFloor.floor_le_iff (by decide) (by decide), clipToLimit]
    have below := DigitFloor.floor_le 8 3 (setCompact old / 4)
    split <;> omega
  rw [← lower]
  split
  next above => simpa using above
  next within => simpa using within

theorem permitted_main_same {old : UInt32} (target : MainTarget (setCompact old)) :
    permittedDifficultyTransition qbtcMainParams height old old = true := by
  by_cases retarget : height % 2016 = 0
  · have observed : setCompact old
        = DigitFloor.floor 8 3 (clipToLimit (setCompact old) qbtcMainParams.powLimit) := by
      rw [clipToLimit, if_neg (not_lt_of_ge target.le_limit), target.rounded]
    refine (permitted_main_retarget_iff retarget target observed (by omega)).mpr ?_
    exact le_trans (DigitFloor.floor_le _ _ _) (Nat.div_le_self _ _)
  · have interval : qbtcMainParams.difficultyAdjustmentInterval = 2016 := rfl
    simp [permittedDifficultyTransition, interval, retarget]

/-! ### The window rule -/

theorem nextWorkWindow_of_lt (early : chain.nHeight < 4032) (nTime : Int) :
    nextWorkWindow chain nTime qbtcMainParams 1 = some 0x1d00ffff := by
  have window : qbtcMainParams.nDagDiffWindowSize = 4032 := rfl
  simp only [nextWorkWindow, window, early, if_true, getCompact_limit_main]

theorem nextWorkWindow_between (later : 4032 ≤ chain.nHeight) (between : ¬ Retargets chain)
    (nTime : Int) : nextWorkWindow chain nTime qbtcMainParams 1 = some chain.last.nBits := by
  have window : qbtcMainParams.nDagDiffWindowSize = 4032 := rfl
  have noExceptions : qbtcMainParams.fPowAllowMinDifficultyBlocks = false := rfl
  have boundary : (chain.nHeight + 1) % 4032 ≠ 0 := fun zero => between ⟨later, zero⟩
  simp [nextWorkWindow, window, Nat.not_lt.mpr later, boundary, noExceptions]

theorem exists_first (later : 4032 ≤ chain.nHeight) :
    ∃ first, chain.getAncestor ((chain.nHeight : Int) - 4031) = some first := by
  have inside : 4031 < chain.entries.length := by
    simp only [Chain.nHeight] at later
    simp only [Chain.entries, List.length_cons]
    omega
  refine ⟨chain.entries.get ⟨4031, inside⟩, ?_⟩
  have position : chain.nHeight - ((chain.nHeight : Int) - 4031).toNat = 4031 := by omega
  rw [Chain.getAncestor, if_neg (by omega), position, List.getElem?_eq_getElem inside]
  rfl

def retargetTarget (chain : Chain) (first : BlockEntry) : Nat :=
  setCompact chain.last.nBits * retargetTimespan chain.last first / 4032 * 65536
    / retargetLoad chain.last first

theorem retarget_product_le (T : Nat) (last first : BlockEntry) :
    T * retargetTimespan last first / 4032 ≤ T * 4 := by
  obtain ⟨-, high⟩ := retargetTimespan_bounds last first
  calc T * retargetTimespan last first / 4032 ≤ T * 16128 / 4032 :=
        Nat.div_le_div_right (Nat.mul_le_mul_left T high)
    _ = T * 4 := by omega

theorem retargetTarget_le (chain : Chain) (first : BlockEntry) :
    retargetTarget chain first ≤ setCompact chain.last.nBits * 4 := by
  have heavy := le_retargetLoad chain.last first
  calc retargetTarget chain first
      ≤ setCompact chain.last.nBits * retargetTimespan chain.last first / 4032 * 65536 / 65536 :=
        Nat.div_le_div_left heavy (by decide)
    _ = setCompact chain.last.nBits * retargetTimespan chain.last first / 4032 :=
        Nat.mul_div_cancel _ (by decide)
    _ ≤ setCompact chain.last.nBits * 4 := retarget_product_le _ _ _

theorem nextWorkWindow_retarget (retargets : Retargets chain)
    (target : MainTarget (setCompact chain.last.nBits)) {first : BlockEntry}
    (ancestor : chain.getAncestor ((chain.nHeight : Int) - 4031) = some first) (nTime : Int) :
    nextWorkWindow chain nTime qbtcMainParams 1
      = some (getCompact (clipToLimit (retargetTarget chain first) qbtcMainParams.powLimit)) := by
  obtain ⟨later, boundary⟩ := retargets
  have window : qbtcMainParams.nDagDiffWindowSize = 4032 := rfl
  have lt := target.lt
  have product := retarget_product_le (setCompact chain.last.nBits) chain.last first
  have small : setCompact chain.last.nBits * retargetTimespan chain.last first / 4032 < 2 ^ 240 := by
    omega
  have offset : ((4032 : Nat) : Int) - 1 = 4031 := rfl
  simp only [nextWorkWindow, window, Nat.not_lt.mpr later, if_false, boundary, ne_eq,
    not_true_eq_false, offset, ancestor, Option.bind_eq_bind, Option.bind_some, Nat.mul_one,
    scaleTarget_retarget lt, applyLoadMult_eq small, retargetTarget, retargetLoad]

theorem required_main_target (required : Required .qbtcMain chain) :
    MainTarget (setCompact chain.last.nBits) := by
  have limit : MainTarget (setCompact 0x1d00ffff) := ⟨by decide, by decide⟩
  induction required with
  | genesis entry bits => rw [bits]; exact limit
  | extend chain entry required bits ih =>
    rw [getNextWorkRequired_main] at bits
    rw [Chain.last_extend]
    rcases Nat.lt_or_ge chain.nHeight 4032 with early | later
    · rw [nextWorkWindow_of_lt early] at bits
      rwa [← Option.some.inj bits]
    by_cases retargets : Retargets chain
    · obtain ⟨first, ancestor⟩ := exists_first later
      rw [nextWorkWindow_retarget retargets ih ancestor] at bits
      rw [← Option.some.inj bits]
      exact mainTarget_getCompact_clip _
    · rw [nextWorkWindow_between later retargets] at bits
      rwa [← Option.some.inj bits]

theorem required_main_bits (required : Required .qbtcMain chain) (early : chain.nHeight ≤ 4032) :
    chain.last.nBits = 0x1d00ffff := by
  cases required with
  | genesis entry bits => exact bits
  | extend chain entry required bits =>
    rw [getNextWorkRequired_main, nextWorkWindow_of_lt early] at bits
    exact (Option.some.inj bits).symm

theorem presyncAccepts_main_iff (required : Required .qbtcMain chain) :
    PresyncAccepts DagChain.qbtcMain.consensus chain ↔ MildRetarget chain := by
  have target := required_main_target required
  have same := permitted_main_same (chain.nHeight + 1) target
  by_cases retargets : Retargets chain
  · obtain ⟨first, ancestor⟩ := exists_first retargets.1
    have permitted := permitted_main_retarget_iff
      (show (chain.nHeight + 1) % 2016 = 0 by have := retargets.2; omega) target (setCompact_getCompact_clip (retargetTarget chain first))
      (retargetTarget_le chain first)
    have positive : 0 < retargetLoad chain.last first :=
      lt_of_lt_of_le (by decide) (le_retargetLoad chain.last first)
    have mild : DigitFloor.floor 8 3 (setCompact chain.last.nBits / 4) ≤ retargetTarget chain first
        ↔ MildRetarget chain := by
      rw [retargetTarget, Nat.le_div_iff_mul_le positive]
      simp [MildRetarget, retargets, ancestor]
    rw [← mild, ← permitted]
    simp only [PresyncAccepts, getNextWorkRequired_main,
      nextWorkWindow_retarget retargets target ancestor, Option.some.injEq, exists_eq_left',
      forall_const]
    rfl
  · have mild : MildRetarget chain := fun retarget => absurd retarget retargets
    refine iff_of_true (fun nTime => ⟨chain.last.nBits, ?_, same⟩) mild
    rw [getNextWorkRequired_main]
    rcases Nat.lt_or_ge chain.nHeight 4032 with early | later
    · rw [nextWorkWindow_of_lt early, required_main_bits required (by omega)]
    · exact nextWorkWindow_between later retargets _

/-! ## Both chains -/

/-- **On a chain whose every `nBits` is what consensus requires, the presync check accepts
every step exactly when**: on the test chain the chain ends within the grace period; on
the main chain every retarget along it is mild. -/
theorem presyncAgrees_iff (network : DagChain) (chain : Chain)
    (required : Required network chain) :
    PresyncAgrees network.consensus chain ↔
      match network with
      | .qbtcTestNet => chain.nHeight < 256
      | .qbtcMain => ∀ segment : Chain, segment.entries <:+ chain.entries → MildRetarget segment := by
  cases network with
  | qbtcTestNet => exact presyncAgrees_testNet_iff required
  | qbtcMain =>
    refine forall_congr' fun segment => forall_congr' fun suffix => ?_
    exact presyncAccepts_main_iff (required.segment suffix)

def bootstrapChain : Nat → Chain
  | 0 => ⟨⟨DagChain.qbtcTestNet.genesisTime, DagChain.qbtcTestNet.genesisBits, 1⟩, []⟩
  | height + 1 => (bootstrapChain height).extend
      ⟨DagChain.qbtcTestNet.genesisTime + 10 * UInt32.ofNat (height + 1), 0x1e0fffff,
        UInt64.ofNat (height + 2)⟩

theorem nHeight_bootstrapChain : (bootstrapChain height).nHeight = height := by
  induction height with
  | zero => rfl
  | succ height ih => rw [bootstrapChain, Chain.nHeight_extend, ih]

theorem required_bootstrapChain {height : Nat} (grace : height ≤ 256) :
    Required .qbtcTestNet (bootstrapChain height) := by
  induction height with
  | zero => exact .genesis _ rfl
  | succ height ih =>
    refine .extend _ _ (ih (by omega)) ?_
    rw [getNextWorkRequired_testNet,
      nextWorkEma_of_lt (by rw [nHeight_bootstrapChain]; omega)]

theorem presyncAgrees_bootstrapChain_255 :
    PresyncAgrees DagChain.qbtcTestNet.consensus (bootstrapChain 255) :=
  (presyncAgrees_iff .qbtcTestNet (bootstrapChain 255) (required_bootstrapChain (by decide))).mpr
    (by rw [nHeight_bootstrapChain]; decide)

/-- After 256 blocks on schedule consensus requires `0x1e0ffffe`, which the presync check
refuses. -/
theorem presync_refuses_block_257 :
    Required .qbtcTestNet (bootstrapChain 256) ∧
    ∃ nBits, getNextWorkRequired none (bootstrapChain 256) 1743381770
        DagChain.qbtcTestNet.consensus = some nBits ∧
      permittedDifficultyTransition DagChain.qbtcTestNet.consensus
        ((bootstrapChain 256).nHeight + 1) (bootstrapChain 256).last.nBits nBits = false := by
  have required := required_bootstrapChain (le_refl 256)
  have height := nHeight_bootstrapChain 256
  have bits := required_testNet_bits required (le_of_eq height)
  refine ⟨required, 0x1e0ffffe, ?_, ?_⟩
  · rw [getNextWorkRequired_testNet, nextWorkEma_activation height bits]
  · rw [height, bits]
    decide

end QuantBTC.Pow
