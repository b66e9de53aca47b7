/-
# Pow.Monotone -- the difficulty answers in the right direction

Two histories of one length that end in one target are compared.  Where the blocks of the
first came no faster (every sampled interval, or the timespan of the window) and carried no
more transactions over the load window, the next target of the first is at least as easy.

The comparison goes through the formula of `Pow.Exact` part by part: each average grows with
its samples (`exactEma_mono`), so does the clamped ratio (`exactAdjustMilli_mono`), the
multiplier grows with the transactions (`exactWindowLoadMult_mono`), and the encoding keeps
the order (`setCompact_getCompact_mono`).
-/
import QuantBTC.Pow.Exact

namespace QuantBTC.Pow

set_option autoImplicit false

open Consensus Theory

variable {params : Params}

/-! ## Moving averages -/

theorem exactEmaStep_mono (alphaFp oneMinusAlpha : Nat) {blockTime blockTime' : Int}
    {emaFp emaFp' : Nat} (sample : blockTime ≤ blockTime') (average : emaFp ≤ emaFp') :
    exactEmaStep alphaFp oneMinusAlpha blockTime emaFp
      ≤ exactEmaStep alphaFp oneMinusAlpha blockTime' emaFp' := by
  apply Nat.div_le_div_right
  apply Nat.add_le_add
  · apply Nat.mul_le_mul_left
    apply Nat.mul_le_mul_right
    omega
  · exact Nat.mul_le_mul_left _ average

theorem emaFold_mono (alphaFp oneMinusAlpha : Nat) {blockTimes blockTimes' : List Int}
    (samples : List.Forall₂ (· ≤ ·) blockTimes blockTimes') {seed seed' : Nat}
    (start : seed ≤ seed') :
    blockTimes.foldr (exactEmaStep alphaFp oneMinusAlpha) seed
      ≤ blockTimes'.foldr (exactEmaStep alphaFp oneMinusAlpha) seed' := by
  induction samples with
  | nil => exact start
  | cons sample _ ih =>
    simp only [List.foldr_cons]
    exact exactEmaStep_mono alphaFp oneMinusAlpha sample ih

theorem getLast?_of_forall₂ {blockTimes blockTimes' : List Int}
    (samples : List.Forall₂ (· ≤ ·) blockTimes blockTimes') :
    (blockTimes.getLast? = none ∧ blockTimes'.getLast? = none) ∨
      ∃ oldest oldest', blockTimes.getLast? = some oldest ∧ blockTimes'.getLast? = some oldest' ∧
        oldest ≤ oldest' := by
  have reversed := List.forall₂_reverse_iff.mpr samples
  rw [List.getLast?_eq_head?_reverse, List.getLast?_eq_head?_reverse]
  generalize blockTimes.reverse = oldestFirst at reversed ⊢
  generalize blockTimes'.reverse = oldestFirst' at reversed ⊢
  cases reversed with
  | nil => exact .inl ⟨rfl, rfl⟩
  | cons sample _ => exact .inr ⟨_, _, rfl, rfl, sample⟩

/-- **An average grows with its samples.** -/
theorem exactEma_mono (halfLife : Nat) {blockTimes blockTimes' : List Int}
    (samples : List.Forall₂ (· ≤ ·) blockTimes blockTimes') :
    exactEma halfLife blockTimes ≤ exactEma halfLife blockTimes' := by
  unfold exactEma
  rcases getLast?_of_forall₂ samples with ⟨none_, none'⟩ | ⟨oldest, oldest', some_, some', le⟩
  · rw [none_, none']
  · rw [some_, some']
    apply emaFold_mono _ _ samples
    apply Nat.mul_le_mul_right
    omega

theorem clampMilli_mono (maxAdj : Nat) {adjust adjust' : Nat} (le : adjust ≤ adjust') :
    (let clipped := if adjust > maxAdj then maxAdj else adjust
      if clipped < 1000000 / maxAdj then 1000000 / maxAdj else clipped)
      ≤ (let clipped := if adjust' > maxAdj then maxAdj else adjust'
        if clipped < 1000000 / maxAdj then 1000000 / maxAdj else clipped) := by
  generalize 1000000 / maxAdj = minAdj
  dsimp only
  split_ifs <;> omega

/-- **So does the clamped ratio.** -/
theorem exactAdjustMilli_mono (nTargetSpacing : Nat) {blockTimes blockTimes' : List Int}
    (samples : List.Forall₂ (· ≤ ·) blockTimes blockTimes') :
    exactAdjustMilli params nTargetSpacing blockTimes
      ≤ exactAdjustMilli params nTargetSpacing blockTimes' := by
  have fast := exactEma_mono params.nDagEmaFastHalfLife samples
  have slow := exactEma_mono params.nDagEmaSlowHalfLife samples
  unfold exactAdjustMilli
  apply clampMilli_mono
  apply Nat.div_le_div_right
  apply Nat.mul_le_mul_right
  generalize exactEma params.nDagEmaFastHalfLife blockTimes = fastFp at fast ⊢
  generalize exactEma params.nDagEmaSlowHalfLife blockTimes = slowFp at slow ⊢
  split <;> split <;> omega

/-! ## The load multiplier -/

theorem exactWindowLoadMult_eq (exact_ : ExactParams params) (txCount window : Nat) :
    (exactWindowLoadMult params txCount window).getD 65536
      = if 200 < txCount / window then Nat.sqrt (min (txCount / window) 3200 * 2 ^ 32 / 200)
        else 65536 := by
  unfold exactWindowLoadMult
  rw [exact_.baseline, exact_.maxMultiplier]
  by_cases loaded : 200 < txCount / window
  · have some_ : 0 < txCount := by
      by_contra none_
      rw [Nat.eq_zero_of_not_pos none_, Nat.zero_div] at loaded
      omega
    rw [if_pos loaded, if_pos some_, if_pos ⟨by omega, loaded⟩, Option.getD_some,
      exactLoadMult_eq loaded]
  · rw [if_neg loaded]
    split
    · rw [if_neg (fun both => loaded both.2), Option.getD_none]
    · rfl

theorem exactWindowLoadMult_mono (exact_ : ExactParams params) {txCount txCount' : Nat}
    (le : txCount ≤ txCount') (window : Nat) :
    (exactWindowLoadMult params txCount window).getD 65536
      ≤ (exactWindowLoadMult params txCount' window).getD 65536 := by
  have average := Nat.div_le_div_right (c := window) le
  rw [exactWindowLoadMult_eq exact_, exactWindowLoadMult_eq exact_]
  generalize txCount / window = avgTx at average ⊢
  generalize txCount' / window = avgTx' at average ⊢
  split
  next loaded =>
    rw [if_pos (by omega)]
    apply Nat.sqrt_le_sqrt
    apply Nat.div_le_div_right
    apply Nat.mul_le_mul_right
    omega
  · split
    · rw [Nat.le_sqrt]
      omega
    · exact le_refl _

/-! ## Two histories -/

def loadWindowFirst (params : Params) (chain : Chain) : Option BlockEntry :=
  if params.fDagUseEma then
    chain.getAncestor ((chain.nHeight : Int) -
      (min (params.nDagEmaSlowHalfLife * 2) (chain.nHeight - max 4 params.nDagDiffWindowSize) : Nat))
  else chain.getAncestor ((chain.nHeight : Int) - ((params.nDagDiffWindowSize : Int) - 1))

def loadWindowTx (params : Params) (chain : Chain) : Nat :=
  match loadWindowFirst params chain with
  | some first => exactTxCount chain.last first
  | none => 0

def intervalTimes (params : Params) (chain : Chain) : List Int :=
  exactSampleTimes chain
    (min params.nDagDiffWindowSize (chain.nHeight - max 4 params.nDagDiffWindowSize))

def windowTimespan (params : Params) (chain : Chain) : Int :=
  match chain.getAncestor ((chain.nHeight : Int) - ((params.nDagDiffWindowSize : Int) - 1)) with
  | some first => chain.last.getBlockTime - first.getBlockTime
  | none => 0

structure NoFaster (params : Params) (first second : Chain) : Prop where
  length : first.nHeight = second.nHeight
  target : first.last.nBits = second.last.nBits
  times : if params.fDagUseEma then
      List.Forall₂ (· ≤ ·) (intervalTimes params second) (intervalTimes params first)
    else windowTimespan params second ≤ windowTimespan params first
  load : loadWindowTx params first ≤ loadWindowTx params second

def Counted : List BlockEntry → Prop
  | [] => True
  | [genesis] => genesis.mChainTxCount.toNat < 2 ^ 32
  | cur :: pprev :: rest =>
    cur.mChainTxCount.toNat < pprev.mChainTxCount.toNat + 2 ^ 32 ∧ Counted (pprev :: rest)

instance decidableCounted : (entries : List BlockEntry) → Decidable (Counted entries)
  | [] => .isTrue trivial
  | [_] => inferInstanceAs (Decidable (_ < _))
  | _ :: pprev :: rest =>
    have := decidableCounted (pprev :: rest)
    inferInstanceAs (Decidable (_ ∧ _))

structure History (params : Params) (chain : Chain) : Prop where
  height : chain.nHeight < 2 ^ 31
  counted : Counted chain.entries
  worked : ∃ hash, checkProofOfWork hash chain.last.nBits params = true

theorem Counted.lt {cur : BlockEntry} {older : List BlockEntry} (counted : Counted (cur :: older)) :
    cur.mChainTxCount.toNat < (older.length + 1) * 2 ^ 32 := by
  induction older generalizing cur with
  | nil => simpa [Counted] using counted
  | cons pprev rest ih =>
    have before := ih counted.2
    have added := counted.1
    simp only [List.length_cons]
    omega

variable {chain : Chain}

theorem History.count_lt (history : History params chain) :
    chain.last.mChainTxCount.toNat < 2 ^ 63 := by
  have count := Counted.lt history.counted
  have height : chain.ancestors.length < 2 ^ 31 := history.height
  omega

theorem History.target_le (history : History params chain) :
    setCompact chain.last.nBits ≤ params.powLimit := by
  obtain ⟨hash, worked⟩ := history.worked
  unfold checkProofOfWork at worked
  dsimp only at worked
  split at worked
  · cases worked
  next passes =>
    push Not at passes
    exact passes.2.2.2

variable {first second : Chain}

theorem timeRate_mono (exact_ : ExactParams params) (slower : NoFaster params first second)
    (adjusts : Adjusts params first.nHeight) :
    timeRate params second ≤ timeRate params first := by
  have times := slower.times
  unfold timeRate
  cases mode : params.fDagUseEma with
  | true =>
    rw [mode, if_pos rfl] at times
    rw [if_pos rfl, if_pos rfl, emaAdjustMilli_exact exact_, emaAdjustMilli_exact exact_]
    exact exactAdjustMilli_mono _ times
  | false =>
    have late := ((adjusts_window mode _).mp adjusts).1
    obtain ⟨_, found⟩ := exists_windowFirst exact_.toAdjustParams first late
    obtain ⟨_, found'⟩ := exists_windowFirst exact_.toAdjustParams second (slower.length ▸ late)
    rw [mode, if_neg (by decide)] at times
    simp only [windowTimespan, found, found'] at times
    rw [if_neg (by decide), if_neg (by decide), found, found']
    have clamped : ∀ {timespan timespan' : Int} (nTargetTimespan : Nat), timespan ≤ timespan' →
        clampTimespan timespan nTargetTimespan ≤ clampTimespan timespan' nTargetTimespan := by
      intro timespan timespan' nTargetTimespan le
      unfold clampTimespan
      dsimp only
      split_ifs <;> omega
    exact Int.toNat_le_toNat (clamped _ times)

theorem loadScale_eq (exact_ : ExactParams params)
    (counted : chain.last.mChainTxCount.toNat < 2 ^ 63) (adjusts : Adjusts params chain.nHeight) :
    loadScale params chain = (exactWindowLoadMult params (loadWindowTx params chain)
      (if params.fDagUseEma then
        min (params.nDagEmaSlowHalfLife * 2) (chain.nHeight - max 4 params.nDagDiffWindowSize)
      else params.nDagDiffWindowSize - 1)).getD 65536 := by
  have window := exact_.window
  have scaled : loadScale params chain
      = ((adjustLoadMult params chain).map UInt64.toNat).getD 65536 := by
    unfold loadScale
    cases adjustLoadMult params chain <;> rfl
  have feature : params.nLoadDiffBaseline > 0 ∧ params.nLoadDiffMaxMultiplier > 1 := by
    rw [exact_.baseline, exact_.maxMultiplier]
    decide
  rw [scaled, adjustLoadMult, loadWindowTx, loadWindowFirst]
  cases mode : params.fDagUseEma with
  | true =>
    have late := (adjusts_ema mode _).mp adjusts
    have parents : chain.ancestors ≠ [] := by
      intro none_
      rw [Chain.nHeight, none_, List.length_nil] at late
      omega
    simp only [if_true]
    rw [emaLoadMult_exact exact_ counted, exactEmaLoadMult, if_pos ⟨feature.1, feature.2, parents⟩]
    obtain ⟨_, found⟩ := chain.getAncestor_isSome
      (show (0 : Int) ≤ (chain.nHeight : Int) - (min (params.nDagEmaSlowHalfLife * 2)
        (chain.nHeight - max 4 params.nDagDiffWindowSize) : Nat) by omega) (by omega)
    simp only [found]
  | false =>
    have late := ((adjusts_window mode _).mp adjusts).1
    obtain ⟨_, found⟩ := exists_windowFirst exact_.toAdjustParams chain late
    simp only [Bool.false_eq_true, if_false, found]
    rw [windowModeLoadMult_exact exact_ counted, exactWindowModeLoadMult, if_pos feature]

theorem loadScale_mono (exact_ : ExactParams params) (slower : NoFaster params first second)
    (counted : first.last.mChainTxCount.toNat < 2 ^ 63)
    (counted' : second.last.mChainTxCount.toNat < 2 ^ 63)
    (adjusts : Adjusts params first.nHeight) :
    loadScale params first ≤ loadScale params second := by
  rw [loadScale_eq exact_ counted adjusts, loadScale_eq exact_ counted' (slower.length ▸ adjusts),
    ← slower.length]
  exact exactWindowLoadMult_mono exact_ slower.load _

/-! ## The next target -/

theorem adjustedTarget_mono (exact_ : ExactParams params) (slower : NoFaster params first second)
    (history : History params first) (history' : History params second)
    (adjusts : Adjusts params first.nHeight) :
    adjustedTarget params second ≤ adjustedTarget params first := by
  have adjust := exact_.toAdjustParams
  have rate := timeRate_mono exact_ slower adjusts
  have load := loadScale_mono exact_ slower history.count_lt history'.count_lt adjusts
  have positive := (loadScale_bounds adjust first).1
  have scaled : timeTarget params second ≤ timeTarget params first := by
    cases mode : params.fDagUseEma with
    | true =>
      rw [timeTarget_ema adjust mode history.target_le,
        timeTarget_ema adjust mode history'.target_le, slower.target]
      exact Nat.mul_le_mul_left _ rate
    | false =>
      have short : timeUnit params < 2 ^ 14 := by
        have timespan := exact_.timespan
        rw [timeUnit, if_neg (by rw [mode]; decide)]
        omega
      rw [timeTarget_window adjust mode short history.target_le,
        timeTarget_window adjust mode short history'.target_le, slower.target]
      exact Nat.div_le_div_right (Nat.mul_le_mul_left _ rate)
  rw [adjustedTarget_eq adjust history.target_le, adjustedTarget_eq adjust history'.target_le]
  apply clipToLimit_mono
  exact Nat.div_le_div (Nat.mul_le_mul_right 65536 scaled) load (by omega)

theorem setCompact_getCompact_mono {m n : Nat} (le : m ≤ n) (fits : n < 2 ^ 256) :
    setCompact (getCompact m) ≤ setCompact (getCompact n) := by
  rw [setCompact_getCompact (by omega), setCompact_getCompact fits]
  exact DigitFloor.floor_mono (by decide) (by decide) le

/-- **A slower and emptier history has the easier next target**, on every chain with `fDagMode`:
the next targets of both are defined, and that of the first is at least that of the second. -/
theorem nextTarget_mono (params : Params)
    (dag : params = qbtcTestNetParams ∨ params = qbtcMainParams ∨ params = regTestParams)
    (first second : Chain) (slower : NoFaster params first second)
    (history : History params first) (history' : History params second)
    (nBlockTime nBlockTime' : Int) :
    ∃ bits bits', getNextWorkRequiredDAG first nBlockTime params = some bits ∧
      getNextWorkRequiredDAG second nBlockTime' params = some bits' ∧
      setCompact bits' ≤ setCompact bits := by
  have public_ : (∃ network : DagChain, params = network.consensus) ∨ params = regTestParams := by
    rcases dag with rfl | rfl | rfl
    · exact .inl ⟨.qbtcTestNet, rfl⟩
    · exact .inl ⟨.qbtcMain, rfl⟩
    · exact .inr rfl
  rcases public_ with ⟨network, rfl⟩ | rfl
  · have exact_ := exactParams_network network
    have adjust := exact_.toAdjustParams
    refine ⟨_, _, getNextWorkRequiredDAG_eq adjust first nBlockTime,
      getNextWorkRequiredDAG_eq adjust second nBlockTime', ?_⟩
    rw [← slower.length]
    by_cases adjusts : Adjusts network.consensus first.nHeight
    · rw [if_pos adjusts, if_pos adjusts]
      apply setCompact_getCompact_mono (adjustedTarget_mono exact_ slower history history' adjusts)
      have limit := adjust.powLimit
      unfold adjustedTarget clipToLimit
      split <;> omega
    · rw [if_neg adjusts, if_neg adjusts, unadjustedBits, unadjustedBits, slower.length,
        slower.target]
  · -- the test chain never changes its target
    exact ⟨_, _, rfl, rfl, by rw [slower.target]⟩

def pacedChain (interval perBlock : Nat) : Chain :=
  let entry (height : Nat) : BlockEntry :=
    ⟨UInt32.ofNat (1743379200 + interval * height), 0x1e0fffff, UInt64.ofNat (perBlock * height)⟩
  ⟨entry 258, (List.range 258).reverse.map entry⟩

theorem nextTarget_mono_paced :
    ∃ bits bits',
      getNextWorkRequiredDAG (pacedChain 12 100) 0 qbtcTestNetParams = some bits ∧
      getNextWorkRequiredDAG (pacedChain 7 400) 0 qbtcTestNetParams = some bits' ∧
      setCompact bits' ≤ setCompact bits := by
  have slow : intervalTimes qbtcTestNetParams (pacedChain 12 100) = [12, 12] := by
    decide +kernel
  have fast : intervalTimes qbtcTestNetParams (pacedChain 7 400) = [7, 7] := by
    decide +kernel
  have times : List.Forall₂ (· ≤ ·) (intervalTimes qbtcTestNetParams (pacedChain 7 400))
      (intervalTimes qbtcTestNetParams (pacedChain 12 100)) := by
    rw [slow, fast]
    exact .cons (by decide) (.cons (by decide) .nil)
  exact nextTarget_mono qbtcTestNetParams (.inl rfl) (pacedChain 12 100) (pacedChain 7 400)
    ⟨by decide +kernel, by decide +kernel, times, by decide +kernel⟩
    ⟨by decide +kernel, by decide +kernel, 0, by decide +kernel⟩
    ⟨by decide +kernel, by decide +kernel, 0, by decide +kernel⟩ 0 0

end QuantBTC.Pow
