/-
# Node.Body -- acceptance of bodies

`ChainstateManager::AcceptBlock`: which bodies are processed, the resolution of the extra
parents, the scoring, and `ReceivedBlockTransactions`.  Writing a body to its file is taken
to succeed.  A refused body can leave a changed entry behind, so the state is returned with
every verdict.
-/
import QuantBTC.Node.Header

namespace QuantBTC.Node

set_option autoImplicit false

open Primitives Dag

namespace ChainstateManager

variable (env : ChainEnv)

/-! ## Scoring -/

def resolveDagParents (index : BlockMap) : List Uint256 → List Uint256 × Option Invalid
  | [] => ([], none)
  | parent :: rest =>
    match index.lookup parent with
    | none => ([], some { result := .missingPrev, rejectReason := "dag-parent-not-found" })
    | some entry =>
      if entry.nStatus.failed then
        ([], some { result := .invalidPrev, rejectReason := "bad-dag-parent" })
      else
        let (resolved, invalid) := resolveDagParents index rest
        (parent :: resolved, invalid)

def resolvedParents (index : BlockMap) (block : CBlock) (pindex : CBlockIndex) :
    List Uint256 × Option Invalid :=
  if block.isDagBlock && decide (pindex.vDagParents.length < block.hashParents.length) then
    resolveDagParents index block.hashParents
  else (pindex.vDagParents, none)

def scoreParents (provider : IGhostdagBlockProvider) (parents : List Uint256)
    (dagData : GhostdagData) : Except Invalid GhostdagData :=
  if parents = [] then .ok { dagData with blueScore := 0, blueWork := 0 }
  else if parents.any fun parent => (provider.getGhostdagData parent).isNone then
    .error { result := .missingPrev, rejectReason := "dag-parent-context-missing" }
  else
    match computeGhostdag provider env.params.ghostdagK parents with
    | none => .error { result := .consensus, rejectReason := "bad-dag-mergeset-overflow" }
    | some data => .ok data

def scoreBlock (chainman : ChainstateManager) (block : CBlock) (hash : Uint256)
    (pindex : CBlockIndex) : ChainstateManager × Option Invalid :=
  if env.dagMode then
    let (vDagParents, unresolved) := resolvedParents chainman.blockIndex block pindex
    let index := chainman.blockIndex.modify hash (CBlockIndex.setParents vDagParents)
    match unresolved with
    | some invalid => ({ chainman with blockIndex := index }, some invalid)
    | none =>
      match scoreParents env index.provider (pindex.pprev.toList ++ vDagParents) pindex.dagData with
      | .error invalid => ({ chainman with blockIndex := index }, some invalid)
      | .ok dagData =>
        ({ chainman with blockIndex := index.modify hash (CBlockIndex.setScore dagData) }, none)
  else (chainman, none)

/-! ## Received transactions -/

def prevTxSum (index : BlockMap) (pindex : CBlockIndex) : UInt64 :=
  pindex.nTx.toUInt64 +
    match pindex.pprev.bind fun prev => index.lookup prev with
    | none => 0
    | some prev => prev.mChainTxCount

def linkDescendants : Nat → List Uint256 → ChainstateManager → ChainstateManager
  | 0, _, chainman => chainman
  | _ + 1, [], chainman => chainman
  | fuel + 1, hash :: queue, chainman =>
    let index := chainman.blockIndex
    let linked : ChainstateManager :=
      { chainman with
        blockIndex := index.modify hash fun pindex =>
          { pindex with
            mChainTxCount := prevTxSum index pindex
            nSequenceId := chainman.nBlockSequenceId }
        nBlockSequenceId := chainman.nBlockSequenceId + 1
        blocksUnlinked := chainman.blocksUnlinked.filter (·.1 ≠ hash) }
    let waiting := (chainman.blocksUnlinked.filter (·.1 = hash)).map (·.2)
    linkDescendants fuel (queue ++ waiting) linked

def receivedEntry (index : BlockMap) (block : CBlock) (pindex : CBlockIndex) : CBlockIndex :=
  let counted := pindex.setData block.vtx
  let expected : Bool :=
    counted.mChainTxCount == 0 || counted.mChainTxCount == prevTxSum index counted
  CBlockIndex.raiseValidity
    { counted with mChainTxCount := if expected then counted.mChainTxCount else 0 } .transactions

def receivedBlockTransactions (chainman : ChainstateManager) (block : CBlock) (hash : Uint256)
    (pprev : Option Uint256) : ChainstateManager :=
  let received := chainman.modifyDirty hash (receivedEntry chainman.blockIndex block)
  match pprev.bind fun prev => received.blockIndex.lookup prev with
  | none => linkDescendants (received.blocksUnlinked.length + 1) [hash] received
  | some prev =>
    if prev.haveNumChainTxs then
      linkDescendants (received.blocksUnlinked.length + 1) [hash] received
    else if prev.isValid .tree then
      { received with blocksUnlinked := received.blocksUnlinked ++ (pprev.map (·, hash)).toList }
    else received

/-! ## Bodies -/

structure BodyInput where
  now : Int
  minPowChecked : Bool
  fRequested : Bool
  activeTip : Option Uint256

def minBlocksToKeep : Nat := 288

def skipsBody (index : BlockMap) (input : BodyInput) (pindex : CBlockIndex) : Bool :=
  let tip := input.activeTip.bind fun hash => index.lookup hash
  let fHasMoreOrSameWork := tip.all (·.nChainWork ≤ pindex.nChainWork)
  let activeHeight : Int := tip.elim (-1) fun tip => tip.nHeight
  let fTooFarAhead : Bool := (pindex.nHeight : Int) > activeHeight + minBlocksToKeep
  pindex.nStatus.haveData ||
    (!input.fRequested && (pindex.nTx != 0 || !fHasMoreOrSameWork || fTooFarAhead ||
      decide (pindex.nChainWork < env.params.nMinimumChainWork)))

def checkBody (index : BlockMap) (block : CBlock) (pindex : CBlockIndex) : Option Invalid :=
  (env.checkBlock block).or <| env.contextualCheckBlock block <|
    (pindex.pprev.bind fun prev => index.lookup prev).map index.chainOf

def updateTips (chainman : ChainstateManager) (hash : Uint256) : ChainstateManager :=
  match chainman.blockIndex.lookup hash with
  | none => chainman
  | some pindex =>
    if env.dagMode then
      { chainman with
        dagTips :=
          chainman.dagTips.blockConnected hash pindex.dagData.blueScore pindex.allParents }
    else chainman

def acceptBody (chainman : ChainstateManager) (input : BodyInput) (block : CBlock)
    (hash : Uint256) (pindex : CBlockIndex) : ChainstateManager × Except Invalid Uint256 :=
  if skipsBody env chainman.blockIndex input pindex then (chainman, .ok hash)
  else
    match checkBody env chainman.blockIndex block pindex with
    | some invalid =>
      if invalid.result = .mutated then (chainman, .error invalid)
      else
        (chainman.modifyDirty hash CBlockIndex.setFailedValid, .error invalid)
    | none =>
      match scoreBlock env chainman block hash pindex with
      | (scored, some invalid) => (scored, .error invalid)
      | (scored, none) =>
        ((scored.receivedBlockTransactions block hash pindex.pprev).updateTips env hash, .ok hash)

def acceptBlock (chainman : ChainstateManager) (input : BodyInput) (block : CBlock) :
    ChainstateManager × Except Invalid Uint256 :=
  match chainman.acceptBlockHeader env input.now input.minPowChecked block.toCBlockHeader with
  | (accepted, .error invalid) => (accepted, .error invalid)
  | (accepted, .ok hash) =>
    match accepted.blockIndex.lookup hash with
    | none => (accepted, .ok hash)
    | some pindex => accepted.acceptBody env input block hash pindex

def loadGenesisBlock : ChainstateManager :=
  let added := addToBlockIndex env {} env.genesis.toCBlockHeader
  added.receivedBlockTransactions env.genesis env.hashGenesisBlock none

/-! ## What a body does -/

variable {env} {chainman : ChainstateManager}

theorem linkDescendants_sameCores (fuel : Nat) (queue : List Uint256)
    (chainman : ChainstateManager) :
    BlockMap.SameCores chainman.blockIndex (linkDescendants fuel queue chainman).blockIndex := by
  induction fuel generalizing queue chainman with
  | zero => exact .refl _
  | succ fuel ih =>
    cases queue with
    | nil => exact .refl _
    | cons hash queue =>
      refine .trans ?_ (ih _ _)
      exact .modify fun _ => rfl

theorem receivedBlockTransactions_sameCores (chainman : ChainstateManager) (block : CBlock) (hash : Uint256)
    (pprev : Option Uint256) :
    BlockMap.SameCores (chainman.blockIndex.modify hash (CBlockIndex.setData block.vtx))
      (chainman.receivedBlockTransactions block hash pprev).blockIndex := by
  have received : BlockMap.SameCores
      (chainman.blockIndex.modify hash (CBlockIndex.setData block.vtx))
      (chainman.modifyDirty hash (receivedEntry chainman.blockIndex block)).blockIndex :=
    .modify_congr fun pindex => CBlockIndex.core_raiseValidity _ _
  unfold receivedBlockTransactions
  dsimp only
  split
  · exact received.trans (linkDescendants_sameCores _ _ _)
  · split
    · exact received.trans (linkDescendants_sameCores _ _ _)
    · split
      · exact received
      · exact received

theorem updateTips_blockIndex (hash : Uint256) :
    (chainman.updateTips env hash).blockIndex = chainman.blockIndex := by
  unfold updateTips
  split
  · rfl
  · split
    · rfl
    · rfl

inductive BodyEffect (env : ChainEnv) (block : CBlock) (hash : Uint256) (pindex : CBlockIndex)
    (index later : BlockMap) : Prop where
  /-- The body is skipped or fails its own checks. -/
  | same (same : index.SameCores later)
  /-- The extra parents cannot be resolved, or the block cannot be scored. -/
  | unscored (dag : env.dagMode = true) (pending : pindex.nStatus.haveData = false)
      (same : (index.modify hash
        (CBlockIndex.setParents (resolvedParents index block pindex).1)).SameCores later)
  /-- The block is scored and stored. -/
  | scored (dag : env.dagMode = true) (pending : pindex.nStatus.haveData = false)
      (vDagParents : List Uint256) (dagData : GhostdagData)
      (resolved : resolvedParents index block pindex = (vDagParents, none))
      (score : scoreParents env (index.modify hash (CBlockIndex.setParents vDagParents)).provider
        (pindex.pprev.toList ++ vDagParents) pindex.dagData = .ok dagData)
      (same : (index.modify hash fun entry =>
        ((entry.setParents vDagParents).setScore dagData).setData block.vtx).SameCores later)
  /-- The block is stored without a score, DAG mode being off. -/
  | plain (dag : env.dagMode = false) (pending : pindex.nStatus.haveData = false)
      (same : (index.modify hash (CBlockIndex.setData block.vtx)).SameCores later)

theorem scoreBlock_cases (env : ChainEnv) (chainman : ChainstateManager) (block : CBlock) (hash : Uint256) (pindex : CBlockIndex) :
    (env.dagMode = false ∧ scoreBlock env chainman block hash pindex = (chainman, none)) ∨
    (env.dagMode = true ∧ ∃ invalid, scoreBlock env chainman block hash pindex =
      ({ chainman with
          blockIndex := chainman.blockIndex.modify hash
            (CBlockIndex.setParents (resolvedParents chainman.blockIndex block pindex).1) },
        some invalid)) ∨
    (env.dagMode = true ∧ ∃ vDagParents dagData,
      resolvedParents chainman.blockIndex block pindex = (vDagParents, none) ∧
      scoreParents env
        (chainman.blockIndex.modify hash (CBlockIndex.setParents vDagParents)).provider
        (pindex.pprev.toList ++ vDagParents) pindex.dagData = .ok dagData ∧
      scoreBlock env chainman block hash pindex =
        ({ chainman with
            blockIndex := (chainman.blockIndex.modify hash
              (CBlockIndex.setParents vDagParents)).modify hash (CBlockIndex.setScore dagData) },
          none)) := by grind [scoreBlock]

theorem pending_of_not_skipsBody {index : BlockMap} {input : BodyInput} {pindex : CBlockIndex}
    (processed : ¬ skipsBody env index input pindex) : pindex.nStatus.haveData = false := by
  by_contra stored
  exact processed (by simp [skipsBody, stored])

theorem acceptBody_effect (input : BodyInput) (block : CBlock) (hash : Uint256)
    (pindex : CBlockIndex) :
    BodyEffect env block hash pindex chainman.blockIndex
      (chainman.acceptBody env input block hash pindex).1.blockIndex := by
  unfold acceptBody
  split
  · exact .same (.refl _)
  next processed =>
    have pending := pending_of_not_skipsBody processed
    split
    · refine .same ?_
      split
      · exact .refl _
      · exact .modify fun _ => rfl
    · rcases scoreBlock_cases env chainman block hash pindex with
        ⟨dag, score⟩ | ⟨dag, invalid, score⟩ | ⟨dag, vDagParents, dagData, resolved, scored, score⟩
      · rw [score]
        refine .plain dag pending ?_
        grind [updateTips_blockIndex, receivedBlockTransactions_sameCores]
      · rw [score]
        exact .unscored dag pending (.refl _)
      · rw [score]
        refine .scored dag pending vDagParents dagData resolved scored ?_
        rw [updateTips_blockIndex]
        have received := receivedBlockTransactions_sameCores
          (scoreBlock env chainman block hash pindex).1 block hash pindex.pprev
        rw [score] at received
        simpa only [BlockMap.modify_modify] using received

end ChainstateManager

/-! ## Runs -/

inductive Arrival where
  | header (now : Int) (minPowChecked : Bool) (header : CBlockHeader)
  | body (input : ChainstateManager.BodyInput) (block : CBlock)

def Arrival.carried : Arrival → CBlockHeader
  | header _ _ carried => carried
  | body _ block => block.toCBlockHeader

def arrive (env : ChainEnv) (chainman : ChainstateManager) : Arrival → ChainstateManager
  | .header now minPowChecked header =>
    (chainman.acceptBlockHeader env now minPowChecked header).1
  | .body input block => (chainman.acceptBlock env input block).1

def runArrivals (env : ChainEnv) (arrivals : List Arrival) : ChainstateManager :=
  arrivals.foldl (arrive env) (ChainstateManager.loadGenesisBlock env)

def ChainstateManager.storedData (chainman : ChainstateManager) (hash : Uint256) :
    Option GhostdagData :=
  ((chainman.blockIndex.lookup hash).filter (·.nStatus.haveData)).map (·.dagData)

/-! ## A chain to evaluate with -/

def nonceHash (bytes : Bytes) : Uint256 :=
  Fin.ofNat (2 ^ 256) (1 + ofLeBytes (bytes.drop (bytes.length - 4)) % 2 ^ 32)

theorem nonceHash_ne_zero (bytes : Bytes) : nonceHash bytes ≠ 0 := by
  intro null
  have value : (1 + ofLeBytes (bytes.drop (bytes.length - 4)) % 2 ^ 32) % 2 ^ 256 = 0 :=
    congrArg Fin.val null
  omega

def nonceChain : ChainEnv where
  params := Consensus.regTestParams
  hash256 := nonceHash
  genesis := { nVersion := 1, nTime := 1743379200, nBits := 0x207fffff, vtx := [⟨[], [], 1, 0⟩] }
  hash_ne_zero _ := nonceHash_ne_zero _
  genesis_prev := rfl
  genesis_parents := rfl

def nonceBlock (nonce : UInt32) (hashPrevBlock : Uint256) (hashParents : List Uint256) : CBlock where
  nVersion := blockVersionDagmode ||| 4
  hashPrevBlock := hashPrevBlock
  nTime := 1743379200 + nonce
  nBits := 0x207fffff
  nNonce := nonce
  hashParentsRoot := CBlockHeader.computeParentsRoot nonceHash hashParents
  hashParents := hashParents
  vtx := [⟨[], [], 1, 0⟩]

def requestedBody (block : CBlock) : Arrival :=
  .body { now := 1743379300, minPowChecked := true, fRequested := true, activeTip := none } block

def announcedHeader (block : CBlock) : Arrival := .header 1743379300 true block.toCBlockHeader

end QuantBTC.Node
