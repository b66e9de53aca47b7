/-
# Pow.DownloadState -- the required difficulty while bodies are being downloaded

`GetNextWorkRequired` reads the header fields of a chain and its cumulative transaction
counts.  The counts are filled in by `ReceivedBlockTransactions`, body by body: a block is
counted once its own body and those of all its ancestors have been received.  So one
chain of headers has many index states, one for each set of received bodies, and the
load multiplier is there to make a difference between them.
-/
import QuantBTC.Pow.Adjustment
import QuantBTC.Pow.Load

namespace QuantBTC.Pow

set_option autoImplicit false

open Consensus

/-! ## Reading headers only -/

def BlockEntry.headerOnly (entry : BlockEntry) : BlockEntry := { entry with mChainTxCount := 0 }

def Chain.headersOnly (chain : Chain) : Chain :=
  ⟨chain.last.headerOnly, chain.ancestors.map BlockEntry.headerOnly⟩

theorem Chain.entries_headersOnly (chain : Chain) :
    chain.headersOnly.entries = chain.entries.map BlockEntry.headerOnly := rfl

@[simp] theorem Chain.nHeight_headersOnly (chain : Chain) :
    chain.headersOnly.nHeight = chain.nHeight := by
  simp [nHeight, headersOnly]

theorem Chain.getAncestor_headersOnly (chain : Chain) (height : Int) :
    chain.headersOnly.getAncestor height
      = (chain.getAncestor height).map BlockEntry.headerOnly := by
  unfold getAncestor
  rw [nHeight_headersOnly, entries_headersOnly, List.getElem?_map]
  split <;> rfl

theorem Chain.times_headersOnly (chain : Chain) :
    chain.headersOnly.entries.map (·.nTime) = chain.entries.map (·.nTime) := by
  rw [entries_headersOnly, List.map_map]
  rfl

theorem lastNonSpecialBits_headersOnly (interval : Nat) (limit : UInt32)
    (entries : List BlockEntry) (last : UInt32) :
    lastNonSpecialBits interval limit (entries.map BlockEntry.headerOnly) last
      = lastNonSpecialBits interval limit entries last := by
  induction entries with
  | nil => rfl
  | cons cur pprev ih =>
    cases pprev with
    | nil => rfl
    | cons pprev rest =>
      simp only [List.map_cons] at ih ⊢
      simp only [lastNonSpecialBits, ih, List.length_cons, List.length_map]
      rfl

theorem getNextWorkRequired_headersOnly {dagArg : Option Bool} {params : Params}
    (off : dagArg.getD params.fDagMode = false) (pindexLast : Chain) (nBlockTime : Int) :
    getNextWorkRequired dagArg pindexLast.headersOnly nBlockTime params
      = getNextWorkRequired dagArg pindexLast nBlockTime params := by
  simp only [getNextWorkRequired, off, Bool.false_eq_true, if_false, Chain.nHeight_headersOnly,
    Chain.getAncestor_headersOnly, Chain.entries_headersOnly, lastNonSpecialBits_headersOnly,
    calculateNextWorkRequired, Option.map_map]
  rw [show ((·.nBits) ∘ BlockEntry.headerOnly : BlockEntry → UInt32) = (·.nBits) from rfl]
  cases pindexLast.getAncestor
    ((pindexLast.nHeight : Int) - ((params.difficultyAdjustmentInterval : Int) - 1)) <;> rfl

/-! ## Chains and their index states -/

structure ChainBlock where
  nTime : UInt32
  nBits : UInt32
  nTx : UInt32
deriving DecidableEq, Repr

def chainTxCount (received : Nat → Bool) : List ChainBlock → UInt64
  | [] => 0
  | block :: pprev =>
    if received pprev.length && (pprev.isEmpty || chainTxCount received pprev != 0) then
      block.nTx.toUInt64 + chainTxCount received pprev
    else 0

def indexEntries (received : Nat → Bool) : List ChainBlock → List BlockEntry
  | [] => []
  | block :: pprev =>
    ⟨block.nTime, block.nBits, chainTxCount received (block :: pprev)⟩ ::
      indexEntries received pprev

structure HeaderChain where
  last : ChainBlock
  ancestors : List ChainBlock
  filled : ∀ block ∈ last :: ancestors, block.nTx ≠ 0
  short : ancestors.length < 2 ^ 31

namespace HeaderChain

def blocks (chain : HeaderChain) : List ChainBlock := chain.last :: chain.ancestors

def nHeight (chain : HeaderChain) : Nat := chain.ancestors.length

def state (chain : HeaderChain) (received : Nat → Bool) : Chain :=
  ⟨⟨chain.last.nTime, chain.last.nBits, chainTxCount received chain.blocks⟩,
    indexEntries received chain.ancestors⟩

def headers (chain : HeaderChain) : Chain := chain.state fun _ => false

end HeaderChain

def totalTx (blocks : List ChainBlock) : Nat := (blocks.map (·.nTx.toNat)).sum

@[simp] theorem totalTx_cons (block : ChainBlock) (pprev : List ChainBlock) :
    totalTx (block :: pprev) = block.nTx.toNat + totalTx pprev := by
  simp [totalTx]

theorem totalTx_take_add_drop (window : Nat) (blocks : List ChainBlock) :
    totalTx (blocks.take window) + totalTx (blocks.drop window) = totalTx blocks := by
  rw [totalTx, totalTx, ← List.sum_append, ← List.map_append, List.take_append_drop, totalTx]

variable {blocks : List ChainBlock}

theorem totalTx_lt (short : blocks.length ≤ 2 ^ 31) : totalTx blocks < 2 ^ 63 := by
  have bound : totalTx blocks ≤ blocks.length * (2 ^ 32 - 1) := by
    induction blocks with
    | nil => simp [totalTx]
    | cons block pprev ih => grind [UInt32.toNat_lt, List.length_cons, totalTx_cons]
  omega

/-! ### Transaction counts -/

section

variable {received : Nat → Bool}

theorem length_indexEntries (blocks : List ChainBlock) :
    (indexEntries received blocks).length = blocks.length := by
  induction blocks with
  | nil => rfl
  | cons block pprev ih => simp only [indexEntries, List.length_cons, ih]

theorem headerOnly_indexEntries (blocks : List ChainBlock) :
    (indexEntries received blocks).map BlockEntry.headerOnly
      = indexEntries (fun _ => false) blocks := by
  induction blocks with
  | nil => rfl
  | cons block pprev ih =>
    simp only [indexEntries, List.map_cons, ih, BlockEntry.headerOnly, chainTxCount,
      Bool.false_and, Bool.false_eq_true, if_false]

variable {blocks : List ChainBlock}

theorem getElem?_indexEntries (received : Nat → Bool) {window : Nat}
    (within : window < blocks.length) :
    ((indexEntries received blocks)[window]?).map (·.mChainTxCount)
      = some (chainTxCount received (blocks.drop window)) := by
  induction blocks generalizing window with
  | nil => simp at within
  | cons block pprev ih =>
    cases window with
    | zero => rfl
    | succ window =>
      rw [List.length_cons] at within
      simpa [indexEntries] using ih (by omega)

theorem chainTxCount_tail {block : ChainBlock} {pprev : List ChainBlock}
    (counted : chainTxCount received (block :: pprev) ≠ 0) :
    chainTxCount received (block :: pprev)
        = block.nTx.toUInt64 + chainTxCount received pprev ∧
      (pprev = [] ∨ chainTxCount received pprev ≠ 0) := by
  rw [chainTxCount] at counted ⊢
  grind

theorem chainTxCount_toNat (short : blocks.length ≤ 2 ^ 31)
    (counted : chainTxCount received blocks ≠ 0) :
    (chainTxCount received blocks).toNat = totalTx blocks := by
  induction blocks with
  | nil => exact absurd rfl counted
  | cons block pprev ih =>
    obtain ⟨sum, parent⟩ := chainTxCount_tail counted
    have small := totalTx_lt short
    rw [List.length_cons] at short
    have before : (chainTxCount received pprev).toNat = totalTx pprev := by
      rcases parent with rfl | parent
      · rfl
      · exact ih (by omega) parent
    rw [totalTx_cons] at small ⊢
    rw [sum, UInt64.toNat_add, before, UInt32.toNat_toUInt64]
    omega

theorem chainTxCount_drop {window : Nat} (within : window < blocks.length)
    (counted : chainTxCount received blocks ≠ 0) :
    chainTxCount received (blocks.drop window) ≠ 0 := by
  induction window generalizing blocks with
  | zero => exact counted
  | succ window ih =>
    cases blocks with
    | nil => simp at within
    | cons block pprev => grind [List.length_cons, chainTxCount_tail]

end

theorem add_count_ne_zero {nTx : UInt32} {before : UInt64} (filled : nTx ≠ 0)
    (small : before.toNat < 2 ^ 63) : nTx.toUInt64 + before ≠ 0 := by
  have own : nTx.toNat ≠ 0 := fun zero => filled (UInt32.toNat_inj.mp zero)
  have few := UInt32.toNat_lt nTx
  intro zero
  have wrapped := congrArg UInt64.toNat zero
  rw [UInt64.toNat_add, UInt32.toNat_toUInt64] at wrapped
  simp only [UInt64.toNat_zero] at wrapped
  omega

theorem chainTxCount_complete (short : blocks.length ≤ 2 ^ 31)
    (filled : ∀ block ∈ blocks, block.nTx ≠ 0) (nonempty : blocks ≠ []) :
    chainTxCount (fun _ => true) blocks ≠ 0 := by
  induction blocks with
  | nil => exact absurd rfl nonempty
  | cons block pprev ih =>
    rw [List.length_cons] at short
    have parent : pprev = [] ∨ chainTxCount (fun _ => true) pprev ≠ 0 := by grind
    have before : (chainTxCount (fun _ => true) pprev).toNat < 2 ^ 63 := by
      rcases parent with rfl | parent
      · decide
      · rw [chainTxCount_toNat (by omega) parent]
        exact totalTx_lt (by omega)
    grind [chainTxCount, add_count_ne_zero, List.mem_cons_self]

/-! ### Load -/

namespace HeaderChain

variable (chain : HeaderChain)

def load (window : Nat) : Nat := totalTx (chain.blocks.take window) / window

def loadMult (params : Params) (window : Nat) : Option UInt64 :=
  if params.nLoadDiffBaseline < chain.load window then
    some (loadMultScaled (UInt64.ofNat (chain.load window))
      (UInt64.ofNat params.nLoadDiffBaseline) (UInt64.ofNat params.nLoadDiffMaxMultiplier))
  else none

def counted (received : Nat → Bool) : Prop := chainTxCount received chain.blocks ≠ 0

instance (received : Nat → Bool) : Decidable (chain.counted received) :=
  inferInstanceAs (Decidable (_ ≠ _))

theorem length_blocks : chain.blocks.length = chain.nHeight + 1 := rfl

theorem counted_complete : chain.counted fun _ => true :=
  chainTxCount_complete chain.short chain.filled (by simp [blocks])

theorem not_counted_headers : ¬chain.counted fun _ => false := by
  simp [counted, blocks, chainTxCount]

variable (received : Nat → Bool)

theorem nHeight_state : (chain.state received).nHeight = chain.nHeight := by
  simp only [state, Chain.nHeight, length_indexEntries, nHeight]

theorem entries_state : (chain.state received).entries = indexEntries received chain.blocks := rfl

theorem headersOnly_state : (chain.state received).headersOnly = chain.headers := by
  simp only [Chain.headersOnly, headers, state, headerOnly_indexEntries, BlockEntry.headerOnly,
    blocks, chainTxCount, Bool.false_and, Bool.false_eq_true, if_false]

theorem getAncestor_state {window : Nat} (within : window ≤ chain.nHeight) :
    ∃ older, (chain.state received).getAncestor ((chain.nHeight : Int) - window) = some older ∧
      older.mChainTxCount = chainTxCount received (chain.blocks.drop window) := by
  have found := getElem?_indexEntries received
    (show window < chain.blocks.length by rw [length_blocks]; omega)
  grind [Chain.getAncestor, nHeight_state, entries_state]

theorem windowLoadMult_state {params : Params} {window : Nat} (within : window ≤ chain.nHeight)
    (baseline : params.nLoadDiffBaseline < 2 ^ 64) :
    windowLoadMult params (chainTxCount received chain.blocks)
        (chainTxCount received (chain.blocks.drop window)) (UInt64.ofNat window)
      = if chain.counted received then chain.loadMult params window else none := by
  have short : chain.blocks.length ≤ 2 ^ 31 := chain.short
  have length := chain.length_blocks
  split
  next counted =>
    have last := chainTxCount_toNat short counted
    have first : (chainTxCount received (chain.blocks.drop window)).toNat
        = totalTx (chain.blocks.drop window) :=
      chainTxCount_toNat (by rw [List.length_drop]; omega)
        (chainTxCount_drop (by omega) counted)
    have parts := totalTx_take_add_drop window chain.blocks
    have small := totalTx_lt short
    have average : totalTx (chain.blocks.take window) / window < 2 ^ 63 :=
      lt_of_le_of_lt (Nat.div_le_self _ _) (by omega)
    exact windowLoadMult_eq (by omega) average (by omega) baseline
  next waits =>
    rw [show chainTxCount received chain.blocks = 0 from not_not.mp waits, windowLoadMult,
      if_neg (by rw [gt_iff_lt, UInt64.lt_iff_toNat_lt]; exact Nat.not_lt_zero _)]

end HeaderChain

/-! ## Required bits -/

def loadWindow (params : Params) (nHeight : Nat) : Nat :=
  if params.fDagUseEma then
    min (params.nDagEmaSlowHalfLife * 2) (nHeight - max 4 params.nDagDiffWindowSize)
  else params.nDagDiffWindowSize - 1

theorem timeTarget_headersOnly (params : Params) (pindexLast : Chain) :
    timeTarget params pindexLast.headersOnly = timeTarget params pindexLast := by
  unfold timeTarget
  simp only [Chain.nHeight_headersOnly, Chain.getAncestor_headersOnly,
    emaAdjustMilli_congr pindexLast.times_headersOnly]
  cases pindexLast.getAncestor
    ((pindexLast.nHeight : Int) - ((params.nDagDiffWindowSize : Int) - 1)) <;> rfl

theorem unadjustedBits_headersOnly (params : Params) (pindexLast : Chain) :
    unadjustedBits params pindexLast.headersOnly = unadjustedBits params pindexLast := by
  unfold unadjustedBits
  rw [Chain.nHeight_headersOnly]
  rfl

structure LoadParams (params : Params) : Prop where
  retargets : params.fPowNoRetargeting = false
  strict : params.fPowAllowMinDifficultyBlocks = false
  spacing : 0 < params.nDagTargetSpacingMs / 1000
  window : 4 ≤ params.nDagDiffWindowSize
  maxAdjust : params.nDagEmaMaxAdjust = 3000
  baseline : params.nLoadDiffBaseline = 200
  maxMultiplier : params.nLoadDiffMaxMultiplier = 4
  powLimit : params.powLimit < 2 ^ 236

theorem LoadParams.adjust {params : Params} (load : LoadParams params) : AdjustParams params where
  retargets := load.retargets
  strict := load.strict
  spacing := load.spacing
  window := load.window
  maxAdjust := load.maxAdjust
  maxMultiplier := load.maxMultiplier
  powLimit := load.powLimit

theorem loadParams_qbtcTestNet : LoadParams qbtcTestNetParams := by
  constructor <;> decide

theorem loadParams_qbtcMain : LoadParams qbtcMainParams := by
  constructor <;> decide

section

variable {params : Params} {chain : HeaderChain} {received : Nat → Bool}

theorem emaLoadMult_state (load : LoadParams params) (ema : params.fDagUseEma = true)
    (adjusts : Adjusts params chain.nHeight) :
    emaLoadMult (chain.state received) params
        (chain.nHeight - max 4 params.nDagDiffWindowSize)
      = if chain.counted received then
          chain.loadMult params (loadWindow params chain.nHeight)
        else none := by
  rw [Adjusts, if_pos ema] at adjusts
  have window : loadWindow params chain.nHeight = min (params.nDagEmaSlowHalfLife * 2)
      (chain.nHeight - max 4 params.nDagDiffWindowSize) := if_pos ema
  have ancestors : (chain.state received).ancestors ≠ [] := by
    intro none_
    have height := chain.nHeight_state received
    rw [Chain.nHeight, none_, List.length_nil] at height
    omega
  obtain ⟨older, found, count⟩ := chain.getAncestor_state received
    (show loadWindow params chain.nHeight ≤ chain.nHeight by omega)
  unfold emaLoadMult
  rw [if_pos ⟨by rw [load.baseline]; omega, by rw [load.maxMultiplier]; omega, ancestors⟩]
  simp only [← window, HeaderChain.nHeight_state, found, count]
  exact chain.windowLoadMult_state received (by omega) (by rw [load.baseline]; omega)

theorem windowModeLoadMult_state (load : LoadParams params) (fixed : params.fDagUseEma = false)
    (adjusts : Adjusts params chain.nHeight) {first : BlockEntry}
    (found : (chain.state received).getAncestor
      ((chain.nHeight : Int) - ((params.nDagDiffWindowSize : Int) - 1)) = some first) :
    windowModeLoadMult (chain.state received).last first params
      = if chain.counted received then
          chain.loadMult params (loadWindow params chain.nHeight)
        else none := by
  have late := ((adjusts_window fixed _).mp adjusts).1
  have size := load.window
  have window : loadWindow params chain.nHeight = params.nDagDiffWindowSize - 1 := by
    rw [loadWindow, if_neg (by rw [fixed]; decide)]
  obtain ⟨older, read, count⟩ := chain.getAncestor_state received
    (show params.nDagDiffWindowSize - 1 ≤ chain.nHeight by omega)
  rw [show ((params.nDagDiffWindowSize - 1 : Nat) : Int) = (params.nDagDiffWindowSize : Int) - 1
    by omega, found] at read
  cases read
  rw [windowModeLoadMult, if_pos (by rw [load.baseline, load.maxMultiplier]; decide), window,
    count]
  exact chain.windowLoadMult_state received (by omega) (by rw [load.baseline]; omega)

theorem adjustLoadMult_state (load : LoadParams params)
    (adjusts : Adjusts params chain.nHeight) :
    adjustLoadMult params (chain.state received)
      = if chain.counted received then
          chain.loadMult params (loadWindow params chain.nHeight)
        else none := by
  unfold adjustLoadMult
  cases mode : params.fDagUseEma with
  | true =>
    rw [if_pos rfl, HeaderChain.nHeight_state]
    exact emaLoadMult_state load mode adjusts
  | false =>
    have late := ((adjusts_window mode _).mp adjusts).1
    obtain ⟨first, found⟩ := exists_windowFirst load.adjust (chain.state received)
      (by rw [HeaderChain.nHeight_state]; exact late)
    rw [if_neg (by decide), found]
    rw [HeaderChain.nHeight_state] at found
    exact windowModeLoadMult_state load mode adjusts found

variable {dagArg : Option Bool}

theorem getNextWorkRequired_state (load : LoadParams params)
    (on : dagArg.getD params.fDagMode = true) (nBlockTime : Int) :
    getNextWorkRequired dagArg (chain.state received) nBlockTime params
      = some (if Adjusts params chain.nHeight then
          getCompact (clipToLimit (applyLoadMult (timeTarget params chain.headers)
            (if chain.counted received then
              chain.loadMult params (loadWindow params chain.nHeight) else none)) params.powLimit)
        else unadjustedBits params chain.headers) := by
  rw [getNextWorkRequired, if_pos on, getNextWorkRequiredDAG_eq load.adjust,
    HeaderChain.nHeight_state, ← chain.headersOnly_state received, timeTarget_headersOnly,
    unadjustedBits_headersOnly]
  grind [adjustedTarget, adjustLoadMult_state]

/-! ## Independence of the received bodies -/

def NextWorkIndependent (dagArg : Option Bool) (params : Params) (chain : HeaderChain)
    (nBlockTime : Int) : Prop :=
  ∃ nBits, ∀ received,
    getNextWorkRequired dagArg (chain.state received) nBlockTime params = some nBits

def LoadHidden (params : Params) (chain : HeaderChain) : Prop :=
  let load := chain.load (loadWindow params chain.nHeight)
  let target := timeTarget params chain.headers
  load ≤ params.nLoadDiffBaseline ∨ target = 0 ∨
    setCompact (getCompact params.powLimit) *
        (loadMultScaled (UInt64.ofNat load) (UInt64.ofNat params.nLoadDiffBaseline)
          (UInt64.ofNat params.nLoadDiffMaxMultiplier)).toNat ≤ target * fpScale.toNat

theorem loadHidden_iff (load : LoadParams params)
    (target : setCompact chain.last.nBits ≤ params.powLimit) :
    getCompact (clipToLimit (applyLoadMult (timeTarget params chain.headers)
        (chain.loadMult params (loadWindow params chain.nHeight))) params.powLimit)
      = getCompact (clipToLimit (timeTarget params chain.headers) params.powLimit) ↔
    LoadHidden params chain := by
  have eased : timeTarget params chain.headers ≤ setCompact chain.last.nBits * 4 :=
    timeTarget_le load.adjust chain.headers
  have limit := load.powLimit
  have scale : fpScale.toNat = 65536 := rfl
  unfold HeaderChain.loadMult LoadHidden
  split
  next loaded =>
    have high : 200 < UInt64.ofNat (chain.load (loadWindow params chain.nHeight)) := by
      have small : chain.load (loadWindow params chain.nHeight) < 2 ^ 63 := by
        apply lt_of_le_of_lt (Nat.div_le_self _ _) (totalTx_lt _)
        exact le_trans (List.length_take_le' ..) chain.short
      rw [load.baseline] at loaded
      rwa [UInt64.lt_iff_toNat_lt, UInt64.toNat_ofNat', Nat.mod_eq_of_lt (by omega)]
    rw [getCompact_loaded_iff (by rw [scale]; omega) (by omega)
      (by rw [load.baseline, load.maxMultiplier]; exact loadMultScaled_of_loaded high),
      or_iff_right (not_le.mpr loaded)]
  next idle => exact iff_of_true rfl (Or.inl (by omega))

theorem nextWorkIndependent_of_load (load : LoadParams params)
    (on : dagArg.getD params.fDagMode = true)
    (target : setCompact chain.last.nBits ≤ params.powLimit) (nBlockTime : Int) :
    NextWorkIndependent dagArg params chain nBlockTime ↔
      ¬Adjusts params chain.nHeight ∨ LoadHidden params chain := by
  unfold NextWorkIndependent
  simp only [getNextWorkRequired_state load on, Option.some.injEq]
  rw [← loadHidden_iff load target]
  by_cases adjusts : Adjusts params chain.nHeight
  · simp only [adjusts, if_true, not_true, false_or]
    constructor
    · rintro ⟨nBits, same⟩
      have complete := same fun _ => true
      have headers := same fun _ => false
      rw [if_pos chain.counted_complete] at complete
      rw [if_neg chain.not_counted_headers] at headers
      exact complete.trans headers.symm
    · intro hidden
      refine ⟨getCompact (clipToLimit (timeTarget params chain.headers) params.powLimit),
        fun received => ?_⟩
      split
      · exact hidden
      · rfl
  · simp only [adjusts, if_false, not_false_eq_true, true_or, iff_true]
    exact ⟨_, fun _ => rfl⟩

theorem getNextWorkRequired_isSome (off : dagArg.getD params.fDagMode = false) (pindexLast : Chain)
    (nBlockTime : Int) :
    ∃ nBits, getNextWorkRequired dagArg pindexLast nBlockTime params = some nBits := by
  unfold getNextWorkRequired
  simp only [off, Bool.false_eq_true, if_false]
  split
  · split
    · split <;> exact ⟨_, rfl⟩
    · exact ⟨_, rfl⟩
  next retarget =>
    have interval := Nat.dvd_of_mod_eq_zero (not_not.mp retarget)
    have whole := Nat.le_of_dvd (Nat.succ_pos _) interval
    have some_ := Nat.pos_of_dvd_of_pos interval (Nat.succ_pos _)
    obtain ⟨first, found⟩ := pindexLast.getAncestor_isSome
      (show 0 ≤ (pindexLast.nHeight : Int) - ((params.difficultyAdjustmentInterval : Int) - 1)
        by omega) (by omega)
    simp only [found, Option.bind_eq_bind, Option.bind_some, calculateNextWorkRequired]
    split
    · exact ⟨_, rfl⟩
    · split
      · exact ⟨_, rfl⟩
      · exact ⟨_, rfl⟩

/-- **When the required difficulty does not depend on which bodies were received.** -/
theorem nextWork_independent_iff (dag : params = qbtcTestNetParams ∨ params = qbtcMainParams ∨
      params = regTestParams) (dagArg : Option Bool)
    (target : setCompact chain.last.nBits ≤ params.powLimit) (nBlockTime : Int) :
    NextWorkIndependent dagArg params chain nBlockTime ↔
      dagArg.getD params.fDagMode = false ∨ params.fPowNoRetargeting = true ∨
        ¬Adjusts params chain.nHeight ∨ LoadHidden params chain := by
  cases mode : dagArg.getD params.fDagMode with
  | false =>
    obtain ⟨nBits, same⟩ := getNextWorkRequired_isSome mode chain.headers nBlockTime
    refine iff_of_true ⟨nBits, fun received => ?_⟩ (Or.inl rfl)
    rw [← getNextWorkRequired_headersOnly mode, HeaderChain.headersOnly_state, same]
  | true =>
    cases fixed : params.fPowNoRetargeting with
    | true =>
      refine iff_of_true ⟨chain.last.nBits, fun received => ?_⟩ (Or.inr (Or.inl rfl))
      rw [getNextWorkRequired, if_pos mode, getNextWorkRequiredDAG, if_pos fixed]
      rfl
    | false =>
      have load : LoadParams params := by
        rcases dag with rfl | rfl | rfl
        · exact loadParams_qbtcTestNet
        · exact loadParams_qbtcMain
        · exact absurd fixed (by decide)
      grind [Bool.true_eq_false, Bool.false_eq_true, nextWorkIndependent_of_load]

end

/-! ### The first adjusted block of the test network -/

def bootChain (nTx : UInt32) (filled : nTx ≠ 0) : HeaderChain where
  last := ⟨1743379200 + 2570, 0x1e0ffffe, nTx⟩
  ancestors := (List.range 257).reverse.map fun height =>
    ⟨1743379200 + 10 * UInt32.ofNat height, 0x1e0fffff, 1⟩
  filled := by simp [filled]
  short := by simp

theorem nextWork_independent_light :
    NextWorkIndependent none qbtcTestNetParams (bootChain 150 (by decide)) 1743381780 :=
  (nextWork_independent_iff (Or.inl rfl) none (by decide +kernel) _).mpr
    (Or.inr (Or.inr (Or.inr (Or.inl (by decide +kernel)))))

def headersValid (params : Params) : List ChainBlock → Bool
  | block :: pprev :: rest =>
    getNextWorkRequired none
        ⟨⟨pprev.nTime, pprev.nBits, 0⟩, indexEntries (fun _ => false) rest⟩
        block.nTime.toNat params == some block.nBits &&
      headersValid params (pprev :: rest)
  | _ => true

/-- **A busy block splits the network.**  After a valid chain whose last block has 500
transactions, a node with headers only asks for `0x1e0ffffd` and a node with all bodies for
`0x1e0a1e8b`. -/
theorem busy_block_needs_body :
    headersValid qbtcTestNetParams (bootChain 500 (by decide)).blocks = true ∧
      getNextWorkRequired none (bootChain 500 (by decide)).headers 1743381780 qbtcTestNetParams
        = some 0x1e0ffffd ∧
      getNextWorkRequired none ((bootChain 500 (by decide)).state fun _ => true) 1743381780
        qbtcTestNetParams = some 0x1e0a1e8b ∧
      ¬NextWorkIndependent none qbtcTestNetParams (bootChain 500 (by decide)) 1743381780 := by
  have headers : getNextWorkRequired none (bootChain 500 (by decide)).headers 1743381780
      qbtcTestNetParams = some 0x1e0ffffd := by decide +kernel
  have bodies : getNextWorkRequired none ((bootChain 500 (by decide)).state fun _ => true)
      1743381780 qbtcTestNetParams = some 0x1e0a1e8b := by
    rw [getNextWorkRequired_state loadParams_qbtcTestNet rfl,
      if_pos (HeaderChain.counted_complete _)]
    decide +kernel
  refine ⟨by decide +kernel, headers, bodies, ?_⟩
  rintro ⟨nBits, same⟩
  have differ := bodies.symm.trans ((same _).trans ((same _).symm.trans headers))
  exact absurd differ (by decide)

end QuantBTC.Pow
