/-
# Node.CandidateOrder -- the candidate set in its order

`setBlockIndexCandidates` is a tree of pointers, ordered by fields of the entries they point to.
Here it is the list of its elements in order; where the set is in order, the place of an insertion
does not depend on the shape of the tree.

`AcceptBlockHeader`, `AcceptBlock` and `ReceivedBlockTransactions` give the states they go through:
one for every assignment to a field that is compared, and one for every insertion.
-/
import QuantBTC.Node.Deferred
import QuantBTC.Theory.OrderedSet

namespace QuantBTC.Node

set_option autoImplicit false

open Primitives
open QuantBTC.Theory (OrderedSet.Sorted OrderedSet.StrictTotal)

/-! ## Sort keys -/

structure SortKey where
  nChainWork : Nat
  blueWork : UInt64
  nSequenceId : Int32
deriving DecidableEq, Repr

def CBlockIndex.sortKey (pindex : CBlockIndex) : SortKey where
  nChainWork := pindex.nChainWork
  blueWork := pindex.dagData.blueWork
  nSequenceId := pindex.nSequenceId

def BlockMap.entryAt (index : BlockMap) (hash : Uint256) : CBlockIndex :=
  (index.lookup hash).getD {}

namespace CandidateView

variable (view : CandidateView)

def precedes (index : BlockMap) (a b : Uint256) : Bool :=
  view.less (a, index.entryAt a) (b, index.entryAt b)

def rank (hash : Uint256) (key : SortKey) : ℕ ×ₗ ℕ ×ₗ ℤ ×ₗ ℤ :=
  toLex (key.nChainWork, toLex (key.blueWork.toNat,
    toLex (-key.nSequenceId.toInt, -(view.address hash : ℤ))))

/-- **The comparator is a lexicographic order.** -/
theorem less_iff (a b : Uint256 × CBlockIndex) :
    view.less a b = true ↔ view.rank a.1 a.2.sortKey < view.rank b.1 b.2.sortKey := by
  simp only [less, rank, CBlockIndex.sortKey, Prod.Lex.toLex_lt_toLex, ne_eq]
  by_cases work : a.2.nChainWork = b.2.nChainWork
  · by_cases blue : a.2.dagData.blueWork = b.2.dagData.blueWork
    · by_cases seq : a.2.nSequenceId = b.2.nSequenceId
      · simp [work, blue, seq]
      · have values : a.2.nSequenceId.toInt ≠ b.2.nSequenceId.toInt := fun same =>
          seq (Int32.toInt_inj.mp same)
        simp [work, blue, seq, Int32.lt_iff_toInt_lt, values]
    · have values : a.2.dagData.blueWork.toNat ≠ b.2.dagData.blueWork.toNat := fun same =>
        blue (UInt64.toNat_inj.mp same)
      simp [work, blue, UInt64.lt_iff_toNat_lt, values]
  · simp [work]

theorem precedes_strictTotal (addresses : Function.Injective view.address) (index : BlockMap) :
    OrderedSet.StrictTotal (view.precedes index) where
  irrefl a := by
    apply Bool.eq_false_iff.mpr
    rw [ne_eq, precedes, less_iff]
    exact lt_irrefl _
  trans a b c := by
    simp only [precedes, less_iff]
    exact lt_trans
  total a b notBefore notAfter := by
    rw [precedes, ← Bool.not_eq_true, less_iff] at notBefore notAfter
    have same := le_antisymm (not_lt.mp notAfter) (not_lt.mp notBefore)
    have address : -(view.address a : ℤ) = -(view.address b : ℤ) :=
      congrArg (fun place => (ofLex (ofLex (ofLex place).2).2).2) same
    apply addresses
    omega

def admits (index : BlockMap) (hash : Uint256) (chainstate : Chainstate) : Bool :=
  match index.lookup hash with
  | none => false
  | some pindex =>
    let tip := chainstate.tip.bind fun tip => (index.lookup tip).map (tip, ·)
    !(tip.any fun tip => view.less (hash, pindex) tip) &&
      (chainstate.isActive || (!chainstate.disabled && view.snapshotBase.any fun base =>
        index.getAncestor base pindex.nHeight = some hash))

def tryAddInOrder (index : BlockMap) (hash : Uint256) (chainstate : Chainstate) : Chainstate :=
  if view.admits index hash chainstate then
    { chainstate with
      setBlockIndexCandidates :=
        Theory.OrderedSet.insert (view.precedes index) hash chainstate.setBlockIndexCandidates }
  else chainstate

theorem tryAddBlockIndexCandidate_eq (index : BlockMap) (hash : Uint256)
    (chainstate : Chainstate) :
    view.tryAddBlockIndexCandidate index hash chainstate =
      if view.admits index hash chainstate then
        { chainstate with
          setBlockIndexCandidates := chainstate.setBlockIndexCandidates.insert hash }
      else chainstate := by
  unfold tryAddBlockIndexCandidate admits
  grind

theorem tryAddInOrder_perm (addresses : Function.Injective view.address) (index : BlockMap)
    (hash : Uint256) (chainstate : Chainstate)
    (sorted : OrderedSet.Sorted (view.precedes index) chainstate.setBlockIndexCandidates) :
    (view.tryAddInOrder index hash chainstate).setBlockIndexCandidates.Perm
      (view.tryAddBlockIndexCandidate index hash chainstate).setBlockIndexCandidates := by
  rw [tryAddBlockIndexCandidate_eq, tryAddInOrder]
  split
  · exact sorted.insert_perm (view.precedes_strictTotal addresses index) hash
  · exact .refl _

variable {view} {index : BlockMap} {chainstate : Chainstate}

theorem mem_tryAddInOrder (addresses : Function.Injective view.address) {hash other : Uint256}
    (mem : other ∈ (view.tryAddInOrder index hash chainstate).setBlockIndexCandidates) :
    other = hash ∨ other ∈ chainstate.setBlockIndexCandidates := by
  unfold tryAddInOrder at mem
  split at mem
  · exact (Theory.OrderedSet.mem_insert (view.precedes_strictTotal addresses index)).mp mem
  · exact .inr mem

theorem sorted_tryAddInOrder (addresses : Function.Injective view.address) (hash : Uint256)
    (sorted : OrderedSet.Sorted (view.precedes index) chainstate.setBlockIndexCandidates) :
    OrderedSet.Sorted (view.precedes index)
      (view.tryAddInOrder index hash chainstate).setBlockIndexCandidates := by
  unfold tryAddInOrder
  split
  · exact sorted.insert (view.precedes_strictTotal addresses index) hash
  · exact sorted

end CandidateView

/-! ## The states of a node -/

structure CandidateNode where
  chainman : ChainstateManager := {}
  chainstates : List Chainstate := [{}]

namespace CandidateNode

variable (env : ChainEnv) (view : CandidateView)

def offer (node : CandidateNode) (hash : Uint256) : CandidateNode :=
  { node with
    chainstates := node.chainstates.map (view.tryAddInOrder node.chainman.blockIndex hash) }

def linkStates : Nat → List Uint256 → CandidateNode → List CandidateNode
  | 0, _, _ => []
  | _ + 1, [], _ => []
  | fuel + 1, hash :: queue, node =>
    let linked := { node with chainman := node.chainman.linkBlock hash }
    let waiting := (node.chainman.blocksUnlinked.filter (·.1 = hash)).map (·.2)
    linked :: linked.offer view hash ::
      linkStates fuel (queue ++ waiting) (linked.offer view hash)

def received (node : CandidateNode) (block : CBlock) (hash : Uint256) : CandidateNode :=
  { node with
    chainman := node.chainman.modifyDirty hash
      (ChainstateManager.receivedEntry node.chainman.blockIndex block) }

def unlink (node : CandidateNode) (pprev : Option Uint256) (hash : Uint256) : CandidateNode :=
  { node with
    chainman := { node.chainman with
      blocksUnlinked := node.chainman.blocksUnlinked ++ (pprev.map (·, hash)).toList } }

def receivedStates (node : CandidateNode) (block : CBlock) (hash : Uint256)
    (pprev : Option Uint256) : List CandidateNode :=
  let received := node.received block hash
  let linked :=
    linkStates view (received.chainman.blocksUnlinked.length + 1) [hash] received
  match pprev.bind fun prev => received.chainman.blockIndex.lookup prev with
  | none => received :: linked
  | some prev =>
    if prev.haveNumChainTxs then received :: linked
    else if prev.isValid .tree then [received, received.unlink pprev hash]
    else [received]

def bodyStates (node : CandidateNode) (input : ChainstateManager.BodyInput) (block : CBlock)
    (hash : Uint256) (pindex : CBlockIndex) : List CandidateNode :=
  if ChainstateManager.skipsBody env node.chainman.blockIndex input pindex then []
  else
    match ChainstateManager.checkBody env node.chainman.blockIndex block pindex with
    | some invalid =>
      if invalid.result = .mutated then []
      else [{ node with chainman := node.chainman.modifyDirty hash CBlockIndex.setFailedValid }]
    | none =>
      match ChainstateManager.scoreBlock env node.chainman block hash pindex with
      | (scored, some _) => [{ node with chainman := scored }]
      | (scored, none) =>
        let states := receivedStates view { node with chainman := scored } block hash pindex.pprev
        let received := states.getLastD { node with chainman := scored }
        { node with chainman := scored } :: states ++
          [{ received with chainman := received.chainman.updateTips env hash }]

def arrivalStates (node : CandidateNode) : Arrival → List CandidateNode
  | .header now minPowChecked header =>
    [{ node with
      chainman := (node.chainman.acceptBlockHeader env now minPowChecked header).1 }]
  | .body input block =>
    match node.chainman.acceptBlockHeader env input.now input.minPowChecked block.toCBlockHeader with
    | (accepted, .error _) => [{ node with chainman := accepted }]
    | (accepted, .ok hash) =>
      match accepted.blockIndex.lookup hash with
      | none => [{ node with chainman := accepted }]
      | some pindex =>
        { node with chainman := accepted } ::
          bodyStates env view { node with chainman := accepted } input block hash pindex

/-! ### The states end where the node does -/

variable {env view}

theorem linkStates_last (fuel : Nat) (queue : List Uint256) (node : CandidateNode) :
    ((linkStates view fuel queue node).getLastD node).chainman
      = ChainstateManager.linkDescendants fuel queue node.chainman := by
  induction fuel generalizing queue node with
  | zero => rfl
  | succ fuel ih =>
    cases queue with
    | nil => rfl
    | cons hash queue =>
      rw [linkStates, List.getLastD_cons, List.getLastD_cons, ih]
      rfl

variable (node : CandidateNode)

theorem receivedStates_last (block : CBlock) (hash : Uint256) (pprev : Option Uint256) :
    ((receivedStates view node block hash pprev).getLastD node).chainman
      = node.chainman.receivedBlockTransactions block hash pprev := by
  unfold receivedStates ChainstateManager.receivedBlockTransactions received
  dsimp only
  cases (pprev.bind fun prev => (node.chainman.modifyDirty hash
      (ChainstateManager.receivedEntry node.chainman.blockIndex block)).blockIndex.lookup prev) with
  | none =>
    dsimp only
    rw [List.getLastD_cons, linkStates_last]
  | some prev =>
    dsimp only
    split
    · rw [List.getLastD_cons, linkStates_last]
    · split
      · rfl
      · rfl

theorem bodyStates_last (input : ChainstateManager.BodyInput) (block : CBlock) (hash : Uint256)
    (pindex : CBlockIndex) :
    ((bodyStates env view node input block hash pindex).getLastD node).chainman
      = (node.chainman.acceptBody env input block hash pindex).1 := by
  unfold bodyStates ChainstateManager.acceptBody
  split
  · rfl
  · cases ChainstateManager.checkBody env node.chainman.blockIndex block pindex with
    | some invalid =>
      dsimp only
      split <;> rfl
    | none =>
      rcases ChainstateManager.scoreBlock env node.chainman block hash pindex with
        ⟨scored, _ | invalid⟩
      · simp only [List.cons_append, List.getLastD_cons, List.getLastD_concat]
        rw [receivedStates_last]
      · rfl

/-- **The states of an arrival end in the node after it.** -/
theorem arrivalStates_last (arrival : Arrival) :
    ((arrivalStates env view node arrival).getLastD node).chainman
      = arrive env node.chainman arrival := by
  cases arrival with
  | header now minPowChecked header => rfl
  | body input block =>
    unfold arrivalStates arrive ChainstateManager.acceptBlock
    grind [List.getLastD_cons, bodyStates_last]

end CandidateNode

end QuantBTC.Node
