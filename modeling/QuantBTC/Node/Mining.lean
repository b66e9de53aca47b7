/-
# Node.Mining -- does a node accept its own templates?

`BlockAssembler::CreateNewBlock` extends the active tip and lists the other tips as extra
parents.  The tip set takes up every stored block and forgets none when it turns out invalid,
and a stored block on the active tip is a tip before it is connected.
-/
import QuantBTC.Node.Persistence

namespace QuantBTC.Node

set_option autoImplicit false

open Primitives Dag

def miningParents (env : ChainEnv) (chainman : ChainstateManager) (tip : Uint256) : List Uint256 :=
  (chainman.dagTips.getMiningParents (UInt32.ofNat env.params.nMaxDagParents)).filter (· ≠ tip)

def createNewBlock (env : ChainEnv) (chainman : ChainstateManager) (tip : Uint256)
    (draft : CBlockHeader) : CBlockHeader :=
  if env.dagMode then
    { draft with
      hashPrevBlock := tip
      nVersion := draft.nVersion ||| blockVersionDagmode
      hashParents := miningParents env chainman tip
      hashParentsRoot :=
        CBlockHeader.computeParentsRoot env.hash256 (miningParents env chainman tip) }
  else { draft with hashPrevBlock := tip }

theorem isDagBlock_or (version : Int32) (header : CBlockHeader)
    (isVersion : header.nVersion = version ||| blockVersionDagmode) : header.isDagBlock = true := by
  have absorbed : (version ||| blockVersionDagmode) &&& blockVersionDagmode
      = blockVersionDagmode := by
    apply Int32.toBitVec.inj
    ext bit
    simp only [Int32.toBitVec_and, Int32.toBitVec_or, BitVec.getElem_and, BitVec.getElem_or]
    grind
  rw [CBlockHeader.isDagBlock, isVersion, absorbed]
  decide

def TipsMinable (env : ChainEnv) (chainman : ChainstateManager) (tip : Uint256) (height : Nat) :
    Prop :=
  (miningParents env chainman tip).Nodup ∧
    ∀ other ∈ miningParents env chainman tip,
      ChainstateManager.ExtraParentOk chainman.blockIndex tip height other

theorem reachedBy_setFailure (env : ChainEnv) (arrivals : List Arrival) (hash : Uint256)
    (failedValid failedChild : Bool) :
    NodeState.ReachedBy env (arrivals.map .arrival ++ [.setFailure hash failedValid failedChild])
      { chainman := (runArrivals env arrivals).setFailure hash failedValid failedChild } :=
  NodeState.runEvents_arrivals env arrivals _ _

def shortChain : List Arrival :=
  [requestedBody (nonceBlock 1 1 []), requestedBody (nonceBlock 2 2 [])]

def failedTipNode : NodeState where
  chainman := (runArrivals nonceChain shortChain).setFailure 3 true false

end QuantBTC.Node
