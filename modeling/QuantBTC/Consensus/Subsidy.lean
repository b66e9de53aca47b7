/-
# Consensus.Subsidy -- the block subsidy and the supply it adds up to

`GetBlockSubsidy` pays a chain's initial reward, shifted right once per halving
interval; from the first halving on a DAG chain pays nothing for a block without
user transactions.  The initial reward of the DAG chains, 83333333, is fixed in
the function, while the halving interval is a chain parameter.
-/
import QuantBTC.Consensus.Params
import QuantBTC.Theory.Halving

namespace QuantBTC.Consensus

set_option autoImplicit false

open Finset Theory.Halving

def coin : Int := 100000000

def maxMoney : Int := 21000000 * coin

def dagInitialBlockReward : Int := 83333333

def getBlockSubsidy (nHeight : Nat) (consensusParams : Params) (fHasUserTransactions : Bool) : Int :=
  let halvings := nHeight / consensusParams.nSubsidyHalvingInterval
  if halvings ≥ 64 then 0
  else
    let nSubsidy := if consensusParams.fDagMode then dagInitialBlockReward else 50 * coin
    let nSubsidy := nSubsidy >>> halvings
    if consensusParams.fDagMode && decide (halvings ≥ 1) && !fHasUserTransactions then 0
    else nSubsidy

/-! ## One height -/

section

variable (params : Params) (dag : params.fDagMode = true)
include dag

theorem subsidy_le_reward (h : Nat) (user : Bool) :
    getBlockSubsidy h params user ≤ (reward params.nSubsidyHalvingInterval 83333333 h : Nat) := by
  grind [getBlockSubsidy, dagInitialBlockReward, Int.shiftRight_eq_div_pow, reward]

theorem subsidy_of_lt {h : Nat} (first : h < params.nSubsidyHalvingInterval) (user : Bool) :
    getBlockSubsidy h params user = 83333333 := by
  simp [getBlockSubsidy, dag, Nat.div_eq_of_lt first, dagInitialBlockReward]

/-! ## Whole schedules -/

theorem sum_subsidy_le (pos : 0 < params.nSubsidyHalvingInterval) (user : Nat → Bool) (n : Nat) :
    ∑ h ∈ range n, getBlockSubsidy h params (user h)
      ≤ (2 * params.nSubsidyHalvingInterval * 83333333 : Nat) := by
  calc ∑ h ∈ range n, getBlockSubsidy h params (user h)
      ≤ ∑ h ∈ range n, ((reward params.nSubsidyHalvingInterval 83333333 h : Nat) : Int) :=
        sum_le_sum fun h _ => subsidy_le_reward params dag h (user h)
    _ = ((∑ h ∈ range n, reward params.nSubsidyHalvingInterval 83333333 h : Nat) : Int) := by
        rw [Nat.cast_sum]
    _ ≤ (2 * params.nSubsidyHalvingInterval * 83333333 : Nat) :=
        Int.ofNat_le.mpr (sum_reward_le _ _ pos n)

theorem sum_subsidy_of_le {n : Nat} (first : n ≤ params.nSubsidyHalvingInterval)
    (user : Nat → Bool) :
    ∑ h ∈ range n, getBlockSubsidy h params (user h) = n * 83333333 := by
  have full : ∀ h ∈ range n, getBlockSubsidy h params (user h) = 83333333 := fun h mem =>
    subsidy_of_lt params dag (lt_of_lt_of_le (mem_range.mp mem) first) (user h)
  rw [sum_congr rfl full, sum_const, card_range, nsmul_eq_mul]

theorem subsidy_nonneg (h : Nat) (user : Bool) : 0 ≤ getBlockSubsidy h params user := by
  unfold getBlockSubsidy
  simp only [dag, if_true, dagInitialBlockReward, Int.shiftRight_eq_div_pow]
  split
  · exact le_refl 0
  · split
    · exact le_refl 0
    · positivity

end

theorem sum_subsidy_mono (chain : DagChain) (user : Nat → Bool) {m n : Nat} (le : m ≤ n) :
    ∑ h ∈ range m, getBlockSubsidy h chain.consensus (user h)
      ≤ ∑ h ∈ range n, getBlockSubsidy h chain.consensus (user h) :=
  sum_le_sum_of_subset_of_nonneg (range_mono le) fun h _ _ =>
    subsidy_nonneg chain.consensus chain.consensus_fDagMode h (user h)

/-! ## The supply cap -/

theorem sum_subsidy_testNet_le (user : Nat → Bool) (n : Nat) :
    ∑ h ∈ range n, getBlockSubsidy h DagChain.qbtcTestNet.consensus (user h) ≤ maxMoney := by
  refine le_trans (sum_subsidy_le _ rfl ?_ user n) ?_
  · decide
  · decide

theorem sum_subsidy_main_of_le (user : Nat → Bool) {n : Nat} (first : n ≤ 25200001) :
    ∑ h ∈ range n, getBlockSubsidy h DagChain.qbtcMain.consensus (user h) = n * 83333333 := by
  refine sum_subsidy_of_le _ rfl ?_ user
  have : DagChain.qbtcMain.consensus.nSubsidyHalvingInterval = 126000000 := rfl
  omega

/-- **The supply up to height `n` stays within `MAX_MONEY` on the test chain at every
height, and on the main chain exactly below height 25200000**, whatever blocks contain
user transactions. -/
theorem supply_le_maxMoney_iff (chain : DagChain) (fHasUserTransactions : Nat → Bool) (n : Nat) :
    ∑ h ∈ range (n + 1), getBlockSubsidy h chain.consensus (fHasUserTransactions h) ≤ maxMoney
      ↔ chain = .qbtcTestNet ∨ n < 25200000 := by
  have cap : maxMoney = 2100000000000000 := by decide
  cases chain with
  | qbtcTestNet => simp [sum_subsidy_testNet_le]
  | qbtcMain =>
    simp only [reduceCtorEq, false_or]
    constructor
    · intro within
      by_contra late
      have start := sum_subsidy_mono .qbtcMain fHasUserTransactions
        (show 25200001 ≤ n + 1 by omega)
      rw [sum_subsidy_main_of_le fHasUserTransactions (le_refl _)] at start
      push_cast at start
      omega
    · intro early
      rw [sum_subsidy_main_of_le fHasUserTransactions (by omega), cap]
      push_cast
      omega

/-- On the main chain height 25200000 takes the supply over the cap, with user
transactions in every block. -/
theorem supply_main_exceeds_maxMoney :
    ¬ ∑ h ∈ range (25200000 + 1), getBlockSubsidy h DagChain.qbtcMain.consensus true
        ≤ maxMoney := by
  rw [sum_subsidy_main_of_le (fun _ => true) (le_refl _)]
  decide

end QuantBTC.Consensus
