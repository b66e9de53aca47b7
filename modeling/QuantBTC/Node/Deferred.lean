/-
# Node.Deferred -- does a deferred block leave a trace?

`AcceptBlock` returns false when an extra parent of a body is missing or invalid, or when the
block cannot be scored.  Such a block may come again once its parents are there, so nothing but
its header should be left of it.  By then `AcceptBlock` has cleared `vDagParents` of the entry
and pushed the listed parents in front of the one that failed.
-/
import QuantBTC.Node.Body

namespace QuantBTC.Node

set_option autoImplicit false

open Primitives Dag

/-! ## Candidate sets -/

structure Chainstate where
  tip : Option Uint256 := none
  isActive : Bool := true
  disabled : Bool := false
  setBlockIndexCandidates : List Uint256 := []
deriving DecidableEq, Repr

structure CandidateView where
  address : Uint256 → Nat
  snapshotBase : Option Uint256 := none

namespace CandidateView

variable (view : CandidateView)

def less (a b : Uint256 × CBlockIndex) : Bool :=
  if a.2.nChainWork ≠ b.2.nChainWork then a.2.nChainWork < b.2.nChainWork
  else if a.2.dagData.blueWork ≠ b.2.dagData.blueWork then
    a.2.dagData.blueWork < b.2.dagData.blueWork
  else if a.2.nSequenceId ≠ b.2.nSequenceId then b.2.nSequenceId < a.2.nSequenceId
  else view.address b.1 < view.address a.1

def tryAddBlockIndexCandidate (index : BlockMap) (hash : Uint256) (chainstate : Chainstate) :
    Chainstate :=
  match index.lookup hash with
  | none => chainstate
  | some pindex =>
    let tip := chainstate.tip.bind fun tip => (index.lookup tip).map (tip, ·)
    let added := { chainstate with
      setBlockIndexCandidates := chainstate.setBlockIndexCandidates.insert hash }
    if tip.any fun tip => view.less (hash, pindex) tip then chainstate
    else if chainstate.isActive then added
    else if !chainstate.disabled && view.snapshotBase.any fun base =>
      index.getAncestor base pindex.nHeight = some hash then added
    else chainstate

end CandidateView

namespace ChainstateManager

variable (env : ChainEnv) (view : CandidateView)

def linkBlock (chainman : ChainstateManager) (hash : Uint256) : ChainstateManager :=
  { chainman with
    blockIndex := chainman.blockIndex.modify hash fun pindex =>
      { pindex with
        mChainTxCount := prevTxSum chainman.blockIndex pindex
        nSequenceId := chainman.nBlockSequenceId }
    nBlockSequenceId := chainman.nBlockSequenceId + 1
    blocksUnlinked := chainman.blocksUnlinked.filter (·.1 ≠ hash) }

def linkCandidates : Nat → List Uint256 → ChainstateManager → List Chainstate → List Chainstate
  | 0, _, _, chainstates => chainstates
  | _ + 1, [], _, chainstates => chainstates
  | fuel + 1, hash :: queue, chainman, chainstates =>
    let linked := chainman.linkBlock hash
    let waiting := (chainman.blocksUnlinked.filter (·.1 = hash)).map (·.2)
    linkCandidates fuel (queue ++ waiting) linked
      (chainstates.map (view.tryAddBlockIndexCandidate linked.blockIndex hash))

def receivedCandidates (chainman : ChainstateManager) (block : CBlock) (hash : Uint256)
    (pprev : Option Uint256) (chainstates : List Chainstate) : List Chainstate :=
  let received := chainman.modifyDirty hash (receivedEntry chainman.blockIndex block)
  match pprev.bind fun prev => received.blockIndex.lookup prev with
  | none => linkCandidates view (received.blocksUnlinked.length + 1) [hash] received chainstates
  | some prev =>
    if prev.haveNumChainTxs then
      linkCandidates view (received.blocksUnlinked.length + 1) [hash] received chainstates
    else chainstates

def acceptBodyCandidates (chainman : ChainstateManager) (input : BodyInput) (block : CBlock)
    (hash : Uint256) (pindex : CBlockIndex) (chainstates : List Chainstate) : List Chainstate :=
  if skipsBody env chainman.blockIndex input pindex then chainstates
  else
    match checkBody env chainman.blockIndex block pindex with
    | some _ => chainstates
    | none =>
      match scoreBlock env chainman block hash pindex with
      | (_, some _) => chainstates
      | (scored, none) => scored.receivedCandidates view block hash pindex.pprev chainstates

def acceptBlockCandidates (chainman : ChainstateManager) (input : BodyInput) (block : CBlock)
    (chainstates : List Chainstate) : List Chainstate :=
  match chainman.acceptBlockHeader env input.now input.minPowChecked block.toCBlockHeader with
  | (_, .error _) => chainstates
  | (accepted, .ok hash) =>
    match accepted.blockIndex.lookup hash with
    | none => chainstates
    | some pindex => accepted.acceptBodyCandidates env view input block hash pindex chainstates

/-! ## What a refusal leaves -/

def usableParent (index : BlockMap) (parent : Uint256) : Bool :=
  match index.lookup parent with
  | none => false
  | some entry => !entry.nStatus.failed

theorem resolveDagParents_fst (index : BlockMap) (parents : List Uint256) :
    (resolveDagParents index parents).1 = parents.takeWhile (usableParent index) := by
  induction parents with
  | nil => rfl
  | cons parent rest ih =>
    rw [resolveDagParents, List.takeWhile_cons, usableParent]
    grind

def deferralReasons : List String :=
  ["bad-dag-parent", "dag-parent-not-found", "dag-parent-context-missing",
    "bad-dag-mergeset-overflow"]

theorem resolveDagParents_reason {index : BlockMap} {parents : List Uint256} {invalid : Invalid}
    (refused : (resolveDagParents index parents).2 = some invalid) :
    invalid.rejectReason ∈ deferralReasons := by
  induction parents with
  | nil => cases refused
  | cons parent rest ih => grind [resolveDagParents, deferralReasons]

theorem scoreParents_reason {provider : IGhostdagBlockProvider} {parents : List Uint256}
    {dagData : GhostdagData} {invalid : Invalid}
    (refused : scoreParents env provider parents dagData = .error invalid) :
    invalid.rejectReason ∈ deferralReasons := by
  grind [scoreParents, Except.error.inj, deferralReasons]

structure Deferred (chainman : ChainstateManager) (input : BodyInput) (block : CBlock)
    (accepted : ChainstateManager) (hash : Uint256) (pindex : CBlockIndex) (invalid : Invalid) :
    Prop where
  header : chainman.acceptBlockHeader env input.now input.minPowChecked block.toCBlockHeader
    = (accepted, .ok hash)
  entry : accepted.blockIndex.lookup hash = some pindex
  processed : skipsBody env accepted.blockIndex input pindex = false
  checked : checkBody env accepted.blockIndex block pindex = none
  refused : (scoreBlock env accepted block hash pindex).2 = some invalid

variable {env view} {chainman accepted : ChainstateManager} {input : BodyInput} {block : CBlock}
  {hash : Uint256} {pindex : CBlockIndex} {invalid : Invalid}

theorem Deferred.acceptBlock_eq
    (deferred : Deferred env chainman input block accepted hash pindex invalid) :
    chainman.acceptBlock env input block
      = ({ accepted with
          blockIndex := accepted.blockIndex.modify hash
            (CBlockIndex.setParents (resolvedParents accepted.blockIndex block pindex).1) },
        .error invalid) := by
  have refused := deferred.refused
  have body : accepted.acceptBody env input block hash pindex
      = ((scoreBlock env accepted block hash pindex).1, .error invalid) := by
    rw [acceptBody, deferred.processed, deferred.checked]
    grind
  rw [acceptBlock, deferred.header]
  dsimp only
  rw [deferred.entry]
  dsimp only
  rw [body]
  rcases scoreBlock_cases env accepted block hash pindex with
    ⟨_, score⟩ | ⟨_, other, score⟩ | ⟨_, _, _, _, _, score⟩
  · simp [score] at refused
  · rw [score]
  · simp [score] at refused

theorem Deferred.candidates_eq
    (deferred : Deferred env chainman input block accepted hash pindex invalid)
    (chainstates : List Chainstate) :
    chainman.acceptBlockCandidates env view input block chainstates = chainstates := by
  have refused := deferred.refused
  rw [acceptBlockCandidates, deferred.header]
  dsimp only
  rw [deferred.entry]
  grind [acceptBodyCandidates]

theorem Deferred.reason
    (deferred : Deferred env chainman input block accepted hash pindex invalid) :
    invalid.rejectReason ∈ deferralReasons := by
  have refused := deferred.refused
  grind [scoreBlock, resolvedParents, resolveDagParents_reason, scoreParents_reason]

/-! ## The trace -/

def NoTrace (env : ChainEnv) (view : CandidateView) (chainman : ChainstateManager)
    (chainstates : List Chainstate) (input : BodyInput) (block : CBlock)
    (accepted : ChainstateManager) (hash : Uint256) (pindex : CBlockIndex) : Prop :=
  let after := (chainman.acceptBlock env input block).1
  (∃ entry, after.blockIndex.lookup hash = some entry ∧
      entry.vDagParents = pindex.vDagParents ∧ entry.dagData = pindex.dagData) ∧
    after.dagTips = accepted.dagTips ∧
    chainman.acceptBlockCandidates env view input block chainstates = chainstates ∧
    ∀ other, other ≠ hash → after.blockIndex.lookup other = accepted.blockIndex.lookup other

/-- **A deferred block leaves no trace exactly when** the body lists no more extra parents than
the entry has, or the entry has just the usable ones at the front of the body's list. -/
theorem deferred_noTrace_iff (env : ChainEnv) (view : CandidateView)
    (chainman : ChainstateManager) (chainstates : List Chainstate) (input : BodyInput)
    (block : CBlock) (accepted : ChainstateManager) (hash : Uint256) (pindex : CBlockIndex)
    (invalid : Invalid)
    (deferred : Deferred env chainman input block accepted hash pindex invalid) :
    NoTrace env view chainman chainstates input block accepted hash pindex ↔
      (block.isDagBlock = true → pindex.vDagParents.length < block.hashParents.length →
        pindex.vDagParents
          = block.hashParents.takeWhile (usableParent accepted.blockIndex)) := by
  have parents : pindex.vDagParents = (resolvedParents accepted.blockIndex block pindex).1 ↔
      (block.isDagBlock = true → pindex.vDagParents.length < block.hashParents.length →
        pindex.vDagParents
          = block.hashParents.takeWhile (usableParent accepted.blockIndex)) := by
    unfold resolvedParents
    split
    next again =>
      rw [Bool.and_eq_true, decide_eq_true_eq] at again
      rw [resolveDagParents_fst]
      exact ⟨fun same _ _ => same, fun same => same again.1 again.2⟩
    · grind
  rw [← parents, NoTrace, deferred.acceptBlock_eq]
  rw [BlockMap.lookup_modify_self, deferred.entry, Option.map_some]
  constructor
  · rintro ⟨⟨entry, isEntry, same, _⟩, _⟩
    cases isEntry
    exact same.symm
  · intro same
    refine ⟨⟨_, rfl, same.symm, rfl⟩, rfl, deferred.candidates_eq chainstates, ?_⟩
    intro other ne
    exact BlockMap.lookup_modify_of_ne ne

def siblingsNode : ChainstateManager :=
  runArrivals nonceChain
    [requestedBody (nonceBlock 1 1 []), requestedBody (nonceBlock 2 1 [])]

def askedFor : BodyInput :=
  { now := 1743379300, minPowChecked := true, fRequested := true, activeTip := none }

def overSiblings (hashParents : List Uint256) : CBlock := nonceBlock 3 2 hashParents

def announced (hashParents : List Uint256) : ChainstateManager :=
  (siblingsNode.acceptBlockHeader nonceChain askedFor.now askedFor.minPowChecked
    (overSiblings hashParents).toCBlockHeader).1

def announcedEntry (hashParents : List Uint256) : CBlockIndex :=
  ((announced hashParents).blockIndex.lookup 4).getD {}

def missingParent : Invalid := { result := .missingPrev, rejectReason := "dag-parent-not-found" }

theorem announced_header {hashParents : List Uint256} {hash : Uint256}
    (ok : (siblingsNode.acceptBlockHeader nonceChain askedFor.now askedFor.minPowChecked
      (overSiblings hashParents).toCBlockHeader).2 = .ok hash) :
    siblingsNode.acceptBlockHeader nonceChain askedFor.now askedFor.minPowChecked
      (overSiblings hashParents).toCBlockHeader = (announced hashParents, .ok hash) := by
  rw [announced, ← ok]

theorem deferred_missing_first : Deferred nonceChain siblingsNode askedFor (overSiblings [9, 3])
    (announced [9, 3]) 4 (announcedEntry [9, 3]) missingParent :=
  ⟨announced_header (by decide +kernel), by decide +kernel, by decide +kernel, by decide +kernel,
    by decide +kernel⟩

theorem deferred_missing_last : Deferred nonceChain siblingsNode askedFor (overSiblings [3, 9])
    (announced [3, 9]) 4 (announcedEntry [3, 9]) missingParent :=
  ⟨announced_header (by decide +kernel), by decide +kernel, by decide +kernel, by decide +kernel,
    by decide +kernel⟩

def atFirstSibling : List Chainstate := [{ tip := some 2, setBlockIndexCandidates := [2] }]

/-- Block `9` is missing and listed last: the entry keeps its parent `3`. -/
theorem deferred_noTrace_missing_last :
    NoTrace nonceChain ⟨fun hash => hash.val, none⟩ siblingsNode atFirstSibling askedFor
      (overSiblings [3, 9]) (announced [3, 9]) 4 (announcedEntry [3, 9]) :=
  (deferred_noTrace_iff _ _ _ _ _ _ _ _ _ _ deferred_missing_last).mpr
    fun _ _ => by decide +kernel

/-- Block `9` is missing and listed first: the header's entry has the parent `3`, and the deferred
body leaves it without one. -/
theorem deferred_block_loses_parent :
    Deferred nonceChain siblingsNode askedFor (overSiblings [9, 3]) (announced [9, 3]) 4
        (announcedEntry [9, 3]) missingParent ∧
      (announcedEntry [9, 3]).vDagParents = [3] ∧
      (((siblingsNode.acceptBlock nonceChain askedFor (overSiblings [9, 3])).1.blockIndex.lookup
        4).map (·.vDagParents)) = some [] ∧
      ¬ NoTrace nonceChain ⟨fun hash => hash.val, none⟩ siblingsNode atFirstSibling askedFor
        (overSiblings [9, 3]) (announced [9, 3]) 4 (announcedEntry [9, 3]) := by
  have before : (announcedEntry [9, 3]).vDagParents = [3] := by decide +kernel
  have after : (((siblingsNode.acceptBlock nonceChain askedFor
      (overSiblings [9, 3])).1.blockIndex.lookup 4).map (·.vDagParents)) = some [] := by
    decide +kernel
  refine ⟨deferred_missing_first, before, after, ?_⟩
  rintro ⟨⟨entry, found, same, _⟩, _⟩
  simp [found, Option.map_some, same, before] at after

end ChainstateManager

end QuantBTC.Node
