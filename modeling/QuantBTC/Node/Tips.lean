/-
# Node.Tips -- are the tips the childless blocks?

`AcceptBlock` ends with `BlockConnected`, which takes the parents out of the tip set and puts
the block in.  The set remembers tips only: a block whose child was accepted before it is put
in all the same, and stays.
-/
import QuantBTC.Node.ArrivalOrder
import QuantBTC.Node.DirtyMarks
import QuantBTC.Theory.Runs

namespace QuantBTC.Node

set_option autoImplicit false

open Primitives Dag Theory.Runs

/-! ## Sequences of acceptances -/

structure Acceptance where
  blockHash : Uint256
  blueScore : Nat
  parents : List Uint256
deriving DecidableEq, Repr

def connect (tips : DagTipSet) (accepted : Acceptance) : DagTipSet :=
  tips.blockConnected accepted.blockHash accepted.blueScore accepted.parents

def Childless (accepted : List Acceptance) (hash : Uint256) : Prop :=
  (∃ block ∈ accepted, block.blockHash = hash) ∧ ∀ block ∈ accepted, hash ∉ block.parents

def HoldsChildless (accepted : List Acceptance) : Prop :=
  ∀ hash, (accepted.foldl connect {}).isTip hash = true ↔ Childless accepted hash

def Unreferenced (accepted : List Acceptance) (next : Acceptance) : Prop :=
  ∀ block ∈ accepted ++ [next], next.blockHash ∉ block.parents

theorem isTip_connect (tips : DagTipSet) (next : Acceptance) (hash : Uint256) :
    (connect tips next).isTip hash = true
      ↔ hash = next.blockHash ∨ (hash ∉ next.parents ∧ tips.isTip hash = true) := by
  simp only [DagTipSet.isTip, connect, DagTipSet.lookup_blockConnected]
  grind

variable {accepted : List Acceptance}

theorem childless_append_iff {next : Acceptance} {hash : Uint256} (other : hash ≠ next.blockHash) :
    Childless (accepted ++ [next]) hash ↔ hash ∉ next.parents ∧ Childless accepted hash := by
  grind [Childless, List.mem_append, List.mem_singleton]

theorem holdsChildless_append_iff (holds : HoldsChildless accepted) (next : Acceptance) :
    HoldsChildless (accepted ++ [next]) ↔ Unreferenced accepted next := by
  have after : ∀ hash, ((accepted ++ [next]).foldl connect {}).isTip hash = true
      ↔ hash = next.blockHash ∨ (hash ∉ next.parents ∧ Childless accepted hash) := by
    intro hash
    rw [List.foldl_append, List.foldl_cons, List.foldl_nil, isTip_connect, holds hash]
  constructor
  · intro later
    have isTip := (after next.blockHash).mpr (.inl rfl)
    exact ((later next.blockHash).mp isTip).2
  · intro unreferenced hash
    rw [after hash]
    by_cases same : hash = next.blockHash
    · subst same
      refine iff_of_true (.inl rfl) ⟨⟨next, ?_, rfl⟩, unreferenced⟩
      exact List.mem_append_right _ (List.mem_singleton_self next)
    · rw [childless_append_iff same]
      exact or_iff_right same

def record (accepted : List Acceptance) (next : Acceptance) : List Acceptance := accepted ++ [next]

theorem foldl_record (done accepted : List Acceptance) :
    done.foldl record accepted = accepted ++ done := by
  induction done generalizing accepted with
  | nil => simp
  | cons next rest ih => simp [ih, record]

/-- **The tips are the childless blocks after each acceptance** exactly when no block is
accepted that itself or an earlier one references. -/
theorem tips_childless_iff (acceptances : List Acceptance) :
    (∀ done, done <+: acceptances → HoldsChildless done) ↔
      StepsMeet record Unreferenced [] acceptances := by
  have empty : HoldsChildless [] := by
    intro hash
    refine iff_of_false Bool.false_ne_true ?_
    rintro ⟨⟨block, mem, _⟩, _⟩
    cases mem
  have run : (∀ done, done <+: acceptances → HoldsChildless (done.foldl record []))
      ↔ StepsMeet record Unreferenced [] acceptances :=
    holds_throughout_iff (fun _ => True) (fun _ _ _ => trivial)
      (fun _ next _ holds => holdsChildless_append_iff holds next) trivial empty
  simpa only [foldl_record, List.nil_append] using run

/-! ## What a node connects -/

namespace ChainstateManager

variable {env : ChainEnv} {chainman : ChainstateManager}

theorem markFailedChild_dagTips (failed : Uint256) (steps : Nat) (walk : Uint256)
    (chainman : ChainstateManager) :
    (markFailedChild failed steps walk chainman).dagTips = chainman.dagTips := by
  induction steps generalizing walk chainman with
  | zero => rfl
  | succ steps ih =>
    unfold markFailedChild
    split
    · rfl
    · split
      · rfl
      · dsimp only
        split
        · rfl
        · exact ih _ _

theorem addToBlockIndex_dagTips (block : CBlockHeader) :
    (chainman.addToBlockIndex env block).dagTips = chainman.dagTips := by
  unfold addToBlockIndex
  dsimp only
  split <;> rfl

theorem acceptBlockHeader_dagTips (now : Int) (minPowChecked : Bool) (block : CBlockHeader)
    (genesis : (chainman.blockIndex.lookup env.hashGenesisBlock).isSome) :
    (chainman.acceptBlockHeader env now minPowChecked block).1.dagTips = chainman.dagTips := by
  grind [acceptBlockHeader_state, markFailedChild_dagTips, addToBlockIndex_dagTips]

theorem linkDescendants_dagTips (fuel : Nat) (queue : List Uint256)
    (chainman : ChainstateManager) :
    (linkDescendants fuel queue chainman).dagTips = chainman.dagTips := by
  induction fuel generalizing queue chainman with
  | zero => rfl
  | succ fuel ih =>
    cases queue with
    | nil => rfl
    | cons hash queue => exact ih _ _

variable (block : CBlock)

theorem receivedBlockTransactions_dagTips (hash : Uint256) (pprev : Option Uint256) :
    (chainman.receivedBlockTransactions block hash pprev).dagTips = chainman.dagTips := by
  unfold receivedBlockTransactions
  dsimp only
  split
  · exact linkDescendants_dagTips _ _ _
  · split
    · exact linkDescendants_dagTips _ _ _
    · split
      · rfl
      · rfl

theorem scoreBlock_dagTips (hash : Uint256) (pindex : CBlockIndex) :
    (scoreBlock env chainman block hash pindex).1.dagTips = chainman.dagTips := by
  rcases scoreBlock_cases env chainman block hash pindex with
    ⟨_, score⟩ | ⟨_, _, score⟩ | ⟨_, _, _, _, _, score⟩
  · rw [score]
  · rw [score]
  · rw [score]

variable {hash : Uint256} {pindex : CBlockIndex}

theorem updateTips_dagTips (dagMode : env.dagMode = true)
    (found : chainman.blockIndex.lookup hash = some pindex) :
    (chainman.updateTips env hash).dagTips
      = chainman.dagTips.blockConnected hash pindex.dagData.blueScore pindex.allParents := by
  simp [updateTips, found, dagMode]

theorem receivedBlockTransactions_lookup (pprev : Option Uint256)
    (found : chainman.blockIndex.lookup hash = some pindex) :
    ∃ pindex', (chainman.receivedBlockTransactions block hash pprev).blockIndex.lookup hash
      = some pindex' ∧ pindex'.nStatus.haveData = true := by
  have same := receivedBlockTransactions_sameCores chainman block hash pprev
  have stored : (chainman.blockIndex.modify hash (CBlockIndex.setData block.vtx)).lookup hash
      = some (pindex.setData block.vtx) := by
    rw [BlockMap.lookup_modify_self, found]
    rfl
  obtain ⟨pindex', found', core⟩ := same.lookup stored
  exact ⟨pindex', found', CBlockIndex.haveData_eq_of_core core⟩

def TipEffect (hash : Uint256) (chainman later : ChainstateManager) : Prop :=
  (later.dagTips = chainman.dagTips ∧
      later.blockIndex.nodeDag.stored hash = chainman.blockIndex.nodeDag.stored hash) ∨
    chainman.blockIndex.nodeDag.stored hash = false ∧
      ∃ pindex', later.blockIndex.lookup hash = some pindex' ∧ pindex'.nStatus.haveData = true ∧
        later.dagTips
          = chainman.dagTips.blockConnected hash pindex'.dagData.blueScore pindex'.allParents

theorem acceptBody_dagTips (dagMode : env.dagMode = true) (input : BodyInput) (block : CBlock)
    (found : chainman.blockIndex.lookup hash = some pindex) :
    TipEffect hash chainman (chainman.acceptBody env input block hash pindex).1 := by
  have modified : ∀ change : CBlockIndex → CBlockIndex,
      (change pindex).nStatus.haveData = pindex.nStatus.haveData →
      (chainman.blockIndex.modify hash change).nodeDag.stored hash
        = chainman.blockIndex.nodeDag.stored hash := by
    intro change keeps
    rw [BlockMap.nodeDag_modify_set found change keeps]
    rfl
  unfold acceptBody
  split
  · exact .inl ⟨rfl, rfl⟩
  next processed =>
    have pending := (BlockMap.stored_of_lookup found).trans (pending_of_not_skipsBody processed)
    split
    · split
      · exact .inl ⟨rfl, rfl⟩
      · exact .inl ⟨rfl, modified _ rfl⟩
    · rcases scoreBlock_cases env chainman block hash pindex with
        ⟨off, _⟩ | ⟨_, invalid, score⟩ | ⟨_, vDagParents, dagData, _, _, score⟩
      · simp [dagMode] at off
      · rw [score]
        exact .inl ⟨rfl, modified _ rfl⟩
      · have tips : (scoreBlock env chainman block hash pindex).1.dagTips = chainman.dagTips :=
          scoreBlock_dagTips block hash pindex
        have scored : ∃ entry, (scoreBlock env chainman block hash pindex).1.blockIndex.lookup hash
            = some entry := by
          rw [score]
          simp [BlockMap.lookup_modify_self, found]
        rw [score] at tips scored ⊢
        obtain ⟨entry, foundEntry⟩ := scored
        obtain ⟨pindex', found', haveData⟩ :=
          receivedBlockTransactions_lookup block pindex.pprev foundEntry
        refine .inr ⟨pending, pindex', ?_, haveData, ?_⟩
        · rw [updateTips_blockIndex]
          exact found'
        · rw [updateTips_dagTips dagMode found', receivedBlockTransactions_dagTips]

theorem acceptBlock_dagTips (dagMode : env.dagMode = true)
    (genesis : (chainman.blockIndex.lookup env.hashGenesisBlock).isSome) (input : BodyInput)
    (block : CBlock) :
    TipEffect (env.hashOf block.toCBlockHeader) chainman (chainman.acceptBlock env input block).1 := by
  have tips := acceptBlockHeader_dagTips input.now input.minPowChecked block.toCBlockHeader genesis
  have stored := (acceptBlockHeader_step input.now input.minPowChecked block.toCBlockHeader
    genesis).stored_eq
  rw [acceptBlock]
  rcases result : chainman.acceptBlockHeader env input.now input.minPowChecked
    block.toCBlockHeader with ⟨accepted, invalid | hash⟩
  · rw [result] at tips stored
    exact .inl ⟨tips, congrFun stored _⟩
  · rw [result] at tips stored
    obtain rfl : hash = env.hashOf block.toCBlockHeader :=
      acceptBlockHeader_ok (congrArg Prod.snd result)
    grind [TipEffect, acceptBody_dagTips]

end ChainstateManager

def acceptance (env : ChainEnv) (chainman : ChainstateManager) : Arrival → Option Acceptance
  | .header _ _ _ => none
  | .body input block =>
    let hash := env.hashOf block.toCBlockHeader
    let later := (chainman.acceptBlock env input block).1
    if chainman.blockIndex.nodeDag.stored hash then none
    else ((later.blockIndex.lookup hash).filter (·.nStatus.haveData)).map fun pindex =>
      { blockHash := hash
        blueScore := pindex.dagData.blueScore
        parents := pindex.allParents }

def acceptances (env : ChainEnv) : ChainstateManager → List Arrival → List Acceptance
  | _, [] => []
  | chainman, arrival :: rest =>
    (acceptance env chainman arrival).toList ++ acceptances env (arrive env chainman arrival) rest

theorem arrive_dagTips {env : ChainEnv} (dagMode : env.dagMode = true)
    {chainman : ChainstateManager}
    (genesis : (chainman.blockIndex.lookup env.hashGenesisBlock).isSome) (arrival : Arrival) :
    (arrive env chainman arrival).dagTips
      = (acceptance env chainman arrival).toList.foldl connect chainman.dagTips := by
  cases arrival with
  | header now minPowChecked header =>
    exact ChainstateManager.acceptBlockHeader_dagTips now minPowChecked header genesis
  | body input block =>
    have effect := ChainstateManager.acceptBlock_dagTips dagMode genesis input block
    rw [arrive, acceptance]
    rcases effect with ⟨same, stored⟩ | ⟨pending, pindex, found, haveData, connected⟩
    · rw [same]
      split
      · rfl
      next notStored =>
        have pending := stored.trans (Bool.eq_false_iff.mpr notStored)
        have nothing : ((chainman.acceptBlock env input block).1.blockIndex.lookup
            (env.hashOf block.toCBlockHeader)).filter (·.nStatus.haveData) = none := by
          rw [Option.filter_eq_none_iff]
          intro pindex found haveData
          simp [BlockMap.stored_of_lookup found, haveData] at pending
        rw [nothing]
        rfl
    · have kept : (some pindex).filter (·.nStatus.haveData) = some pindex := if_pos haveData
      rw [if_neg (by rw [pending]; exact Bool.false_ne_true), found, connected, kept]
      rfl

theorem run_dagTips {env : ChainEnv} (dagMode : env.dagMode = true) (arrivals : List Arrival)
    {chainman : ChainstateManager}
    (genesis : (chainman.blockIndex.lookup env.hashGenesisBlock).isSome) :
    (arrivals.foldl (arrive env) chainman).dagTips
      = (acceptances env chainman arrivals).foldl connect chainman.dagTips := by
  induction arrivals generalizing chainman with
  | nil => rfl
  | cons arrival rest ih =>
    have known := (arrive_keeps genesis arrival).grows.isSome genesis
    rw [List.foldl_cons, ih known, arrive_dagTips dagMode genesis, acceptances, List.foldl_append]

theorem run_dagTips_childFirst :
    (childFirst.foldl (arrive nonceChain) (.loadGenesisBlock nonceChain)).dagTips
      = (acceptances nonceChain (.loadGenesisBlock nonceChain) childFirst).foldl connect
        (ChainstateManager.loadGenesisBlock nonceChain).dagTips :=
  run_dagTips (by decide +kernel) childFirst (by decide +kernel)

/-- The node accepts `3`, which references `2`, and then `2`: both are tips. -/
theorem parent_after_child_is_tip :
    acceptances nonceChain (.loadGenesisBlock nonceChain) childFirst
        = [⟨3, 1, [2]⟩, ⟨2, 1, [1]⟩] ∧
      (runArrivals nonceChain childFirst).dagTips.isTip 2 = true ∧
      (runArrivals nonceChain childFirst).dagTips.isTip 3 = true ∧
      ¬ HoldsChildless (acceptances nonceChain (.loadGenesisBlock nonceChain) childFirst) := by
  have accepted : acceptances nonceChain (.loadGenesisBlock nonceChain) childFirst
      = [⟨3, 1, [2]⟩, ⟨2, 1, [1]⟩] := by decide +kernel
  refine ⟨accepted, by decide +kernel, by decide +kernel, ?_⟩
  rw [accepted]
  intro holds
  have childless := (holds 2).mp (by decide +kernel)
  exact childless.2 ⟨3, 1, [2]⟩ (List.mem_cons_self ..) (List.mem_singleton_self 2)

end QuantBTC.Node
