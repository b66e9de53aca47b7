/-
# Node.Commitment -- are the stored parents the committed ones?

The proof of work covers `hashParentsRoot`, and the list of parents travels beside it.
`AcceptBlockHeader` compares the two for a new header only; for a header that is known it
returns before the check, and `AcceptBlock` takes the list of the body as it is.
-/
import QuantBTC.Node.NodeDag
import QuantBTC.Node.Persistence

namespace QuantBTC.Node

set_option autoImplicit false

open Primitives Dag

/-! ## New headers -/

section New

variable {env : ChainEnv} {chainman : ChainstateManager}

theorem parentsRoot_of_passed (on : env.dagMode = true) {index : BlockMap} {now : Int}
    {header : CBlockHeader} (dag : header.isDagBlock = true)
    (passed : ChainstateManager.checkNewHeader env index now header = none) :
    CBlockHeader.computeParentsRoot env.hash256 header.hashParents = header.hashParentsRoot := by
  obtain ⟨pindexPrev, found⟩ := ChainstateManager.checkNewHeader_prev passed
  have checks := (Option.or_eq_none_iff.mp passed).2
  rw [found] at checks
  have parents := (Option.or_eq_none_iff.mp checks).2
  rw [ChainstateManager.checkDagParents, dag, on, Bool.and_self, if_pos rfl,
    Option.or_eq_none_iff, Option.or_eq_none_iff, refuseIf_eq_none, refuseIf_eq_none,
    not_not] at parents
  exact parents.1.2.symm

theorem NodeDag.BodyStep.isSome_iff {header : CBlockHeader} {node later : NodeDag}
    (step : NodeDag.BodyStep env header node later) (hash : Uint256) :
    (later.view hash).isSome ↔ (node.view hash).isSome := by
  have kept : ∀ entry, node.view (env.hashOf header) = some entry → ∀ entry',
      ((node.set (env.hashOf header) entry').view hash).isSome ↔ (node.view hash).isSome := by
    grind [NodeDag.view_set_self, NodeDag.view_set_of_ne]
  cases step with
  | skip => exact Iff.rfl
  | resolve entry _ _ found => exact kept entry found _
  | score entry _ _ found => exact kept entry found _
  | plain => exact Iff.rfl

theorem checked_of_new (genesis : (chainman.blockIndex.lookup env.hashGenesisBlock).isSome)
    (arrival : Arrival)
    (unknown : chainman.blockIndex.nodeDag.view (env.hashOf arrival.carried) = none)
    (known : ((arrive env chainman arrival).blockIndex.nodeDag.view
      (env.hashOf arrival.carried)).isSome) :
    ∃ now, ChainstateManager.checkNewHeader env chainman.blockIndex now arrival.carried = none := by
  have header : ∀ now minPowChecked, ((chainman.acceptBlockHeader env now minPowChecked
      arrival.carried).1.blockIndex.nodeDag.view (env.hashOf arrival.carried)).isSome →
      ∃ now, ChainstateManager.checkNewHeader env chainman.blockIndex now arrival.carried = none := by
    intro now minPowChecked known
    rcases ChainstateManager.acceptBlockHeader_cases now minPowChecked arrival.carried genesis with
      same | ⟨_, _, passed⟩
    · simp [same.nodeDag_eq, unknown] at known
    · exact ⟨now, passed⟩
  cases arrival with
  | header now minPowChecked carried => exact header now minPowChecked known
  | body input block =>
    exact header input.now input.minPowChecked
      (((arrive_bodyStep env chainman input block).isSome_iff _).mp known)

end New

/-! ## Stored bodies -/

section Stored

variable {env : ChainEnv} {header : CBlockHeader} {node later : NodeDag}

theorem completeParents_of_sublist {entry : DagEntry}
    (known : entry.vDagParents.Sublist (dagParents header)) :
    NodeDag.completeParents header entry = dagParents header := by grind [NodeDag.completeParents]

theorem NodeDag.BodyStep.parents_of_stored (on : env.dagMode = true)
    (step : NodeDag.BodyStep env header node later)
    (pending : node.stored (env.hashOf header) = false)
    (stored : later.stored (env.hashOf header) = true) :
    ∃ entry, node.view (env.hashOf header) = some entry ∧
      (later.view (env.hashOf header)).map (·.vDagParents)
        = some (NodeDag.completeParents header entry) := by
  cases step with
  | skip =>
    simp [pending] at stored
  | resolve =>
    simp [NodeDag.set, pending] at stored
  | score entry dagData _ found =>
    refine ⟨entry, found, ?_⟩
    have isEntry : ((node.set (env.hashOf header)
        { entry with vDagParents := NodeDag.completeParents header entry, dagData }).store
          (env.hashOf header)).view (env.hashOf header) = some _ := NodeDag.view_set_self
    rw [isEntry]
    rfl
  | plain _ off =>
    simp [on] at off

theorem arrive_parents_of_stored (on : env.dagMode = true) {chainman : ChainstateManager}
    (genesis : (chainman.blockIndex.lookup env.hashGenesisBlock).isSome)
    (input : ChainstateManager.BodyInput) (block : CBlock)
    (pending : chainman.blockIndex.nodeDag.stored (env.hashOf block.toCBlockHeader) = false)
    (stored : (arrive env chainman (.body input block)).blockIndex.nodeDag.stored
      (env.hashOf block.toCBlockHeader) = true) :
    ((arrive env chainman (.body input block)).blockIndex.nodeDag.view
        (env.hashOf block.toCBlockHeader)).map (·.vDagParents) =
      some ((chainman.blockIndex.nodeDag.view (env.hashOf block.toCBlockHeader)).elim
        (dagParents block.toCBlockHeader) (NodeDag.completeParents block.toCBlockHeader)) := by
  obtain ⟨middle, headerStep, bodyStep⟩ := arrive_body genesis input block
  rw [← headerStep.stored_eq] at pending
  obtain ⟨entry, isEntry, parents⟩ := bodyStep.parents_of_stored on pending stored
  rw [parents]
  congr 1
  cases before : chainman.blockIndex.nodeDag.view (env.hashOf block.toCBlockHeader) with
  | some entry' =>
    cases (headerStep.view_eq before).symm.trans isEntry
    rfl
  | none =>
    refine completeParents_of_sublist ?_
    cases headerStep with
    | skip =>
      simp [before] at isEntry
    | add prev => grind [NodeDag.view_set_self, NodeDag.knownParents_sublist]

end Stored

def HonestBody (env : ChainEnv) (block : CBlock) (pindex : CBlockIndex) : Prop :=
  CBlockHeader.computeParentsRoot env.hash256 block.hashParents = block.hashParentsRoot ∧
    ((block.isDagBlock = true ∧ pindex.vDagParents.length < block.hashParents.length) ∨
      pindex.vDagParents = block.hashParents)

theorem completeParents_eq_iff {block : CBlock} (received : block.toCBlockHeader.Received)
    (pindex : CBlockIndex) :
    NodeDag.completeParents block.toCBlockHeader pindex.dagEntry = block.hashParents ↔
      (block.isDagBlock = true ∧ pindex.vDagParents.length < block.hashParents.length) ∨
        pindex.vDagParents = block.hashParents := by
  have entryParents : pindex.dagEntry.vDagParents = pindex.vDagParents := rfl
  grind [NodeDag.completeParents, dagParents]

theorem map_vDagParents_view (index : BlockMap) (hash : Uint256) :
    (index.nodeDag.view hash).map (·.vDagParents) = (index.lookup hash).map (·.vDagParents) := by
  rw [show index.nodeDag.view hash = (index.lookup hash).map CBlockIndex.dagEntry from rfl,
    Option.map_map]
  rfl

def mergeAnnounced : List Arrival :=
  [requestedBody (nonceBlock 1 1 []), requestedBody (nonceBlock 2 1 []),
    announcedHeader (nonceBlock 3 2 [3])]

def mergeNode : NodeState := { chainman := runArrivals nonceChain mergeAnnounced }

def askedFor : ChainstateManager.BodyInput :=
  { now := 1743379300, minPowChecked := true, fRequested := true, activeTip := none }

def forgedCopy : CBlock := { nonceBlock 2 1 [] with hashParents := [2] }

end QuantBTC.Node
