/-
# Node.CandidateKeys -- what an arrival does to the sort keys

Every way into the candidate set goes through `ReceivedBlockTransactions`: by then the body of the
block is stored.  `AcceptBlock` scores a block only while its body is missing, and the loop over
the queue numbers a block once, when it leaves `m_blocks_unlinked` or has just got its body.
-/
import QuantBTC.Node.CandidateOrder
import QuantBTC.Theory.Runs

namespace QuantBTC.Node

set_option autoImplicit false

open Primitives
open QuantBTC.Theory (OrderedSet.Sorted)
open QuantBTC.Theory.Runs (Passes)

/-! ## Changes of the index -/

namespace BlockMap

def Stored (index : BlockMap) (hash : Uint256) : Prop :=
  ∃ pindex, index.lookup hash = some pindex ∧ pindex.nStatus.haveData = true

def SameKey (index later : BlockMap) (hash : Uint256) : Prop :=
  ∃ pindex pindex', index.lookup hash = some pindex ∧ later.lookup hash = some pindex' ∧
    pindex'.sortKey = pindex.sortKey

def KeepsStored (index later : BlockMap) : Prop :=
  ∀ hash, index.Stored hash → later.Stored hash ∧ index.SameKey later hash

variable {index later final : BlockMap} {hash : Uint256} {change : CBlockIndex → CBlockIndex}

theorem KeepsStored.refl (index : BlockMap) : KeepsStored index index := by
  rintro hash ⟨pindex, found, haveData⟩
  exact ⟨⟨pindex, found, haveData⟩, pindex, pindex, found, found, rfl⟩

theorem KeepsStored.trans (first : KeepsStored index later) (second : KeepsStored later final) :
    KeepsStored index final := by
  intro hash stored
  obtain ⟨storedLater, pindex, pindex', found, found', same⟩ := first hash stored
  obtain ⟨storedFinal, pindex'', final', found'', foundFinal, same'⟩ := second hash storedLater
  cases found'.symm.trans found''
  exact ⟨storedFinal, pindex, final', found, foundFinal, same'.trans same⟩

theorem KeepsStored.of_map
    (same : ∀ hash, (later.lookup hash).map (fun pindex => (pindex.sortKey, pindex.nStatus.haveData))
      = (index.lookup hash).map fun pindex => (pindex.sortKey, pindex.nStatus.haveData)) :
    KeepsStored index later := by
  rintro hash ⟨pindex, found, haveData⟩
  have eq := same hash
  rw [found, Option.map_some] at eq
  obtain ⟨pindex', found', fields⟩ := Option.map_eq_some_iff.mp eq
  obtain ⟨key, data⟩ := Prod.mk.inj fields
  exact ⟨⟨pindex', found', data.trans haveData⟩, pindex, pindex', found, found', key⟩

theorem KeepsStored.modify (key : ∀ pindex, (change pindex).sortKey = pindex.sortKey)
    (data : ∀ pindex, (change pindex).nStatus.haveData = pindex.nStatus.haveData) :
    KeepsStored index (index.modify hash change) := by
  apply KeepsStored.of_map
  intro other
  apply map_lookup_modify
  intro pindex
  rw [key, data]

theorem sameKey_modify_of_ne {other : Uint256} (ne : other ≠ hash) (stored : index.Stored other) :
    (index.modify hash change).Stored other ∧ index.SameKey (index.modify hash change) other := by
  obtain ⟨pindex, found, haveData⟩ := stored
  have kept : (index.modify hash change).lookup other = some pindex :=
    (lookup_modify_of_ne ne).trans found
  exact ⟨⟨pindex, kept, haveData⟩, pindex, pindex, found, kept, rfl⟩

theorem KeepsStored.modify_pending (pending : ¬index.Stored hash) :
    KeepsStored index (index.modify hash change) := by
  intro other stored
  apply sameKey_modify_of_ne _ stored
  rintro rfl
  exact pending stored

theorem SameKey.sortKey_entryAt (same : index.SameKey later hash) :
    (later.entryAt hash).sortKey = (index.entryAt hash).sortKey := by
  obtain ⟨pindex, pindex', found, found', key⟩ := same
  rwa [entryAt, entryAt, found, found']

end BlockMap

theorem CandidateView.precedes_congr (view : CandidateView) {index later : BlockMap} {a b : Uint256}
    (sameA : index.SameKey later a) (sameB : index.SameKey later b) :
    view.precedes later a b = view.precedes index a b := by
  apply Bool.eq_iff_iff.mpr
  rw [precedes, precedes, less_iff, less_iff, sameA.sortKey_entryAt, sameB.sortKey_entryAt]

namespace ChainstateManager

open BlockMap (KeepsStored)

variable {env : ChainEnv} {chainman : ChainstateManager}

theorem markFailedChild_keepsStored (failed : Uint256) (steps : Nat) (walk : Uint256)
    (chainman : ChainstateManager) :
    KeepsStored chainman.blockIndex (markFailedChild failed steps walk chainman).blockIndex ∧
      (markFailedChild failed steps walk chainman).blocksUnlinked = chainman.blocksUnlinked := by
  induction steps generalizing walk chainman with
  | zero => exact ⟨.refl _, rfl⟩
  | succ steps ih =>
    have marked : KeepsStored chainman.blockIndex
        (chainman.modifyDirty walk CBlockIndex.setFailedChild).blockIndex :=
      .modify (fun _ => rfl) fun _ => rfl
    unfold markFailedChild
    split
    · exact ⟨.refl _, rfl⟩
    · split
      · exact ⟨.refl _, rfl⟩
      · dsimp only
        split
        · exact ⟨marked, rfl⟩
        · exact (ih _ _).imp_left marked.trans

theorem acceptBlockHeader_keepsStored (now : Int) (minPowChecked : Bool) (block : CBlockHeader)
    (genesis : (chainman.blockIndex.lookup env.hashGenesisBlock).isSome) :
    KeepsStored chainman.blockIndex
        (chainman.acceptBlockHeader env now minPowChecked block).1.blockIndex ∧
      (chainman.acceptBlockHeader env now minPowChecked block).1.blocksUnlinked
        = chainman.blocksUnlinked := by
  rcases acceptBlockHeader_state now minPowChecked block genesis with
    same | ⟨failed, steps, marked⟩ | ⟨added, unknown, _⟩
  · rw [same]
    exact ⟨.refl _, rfl⟩
  · rw [marked]
    exact markFailedChild_keepsStored _ _ _ _
  · rw [added]
    constructor
    · rintro hash ⟨pindex, found, haveData⟩
      have other : hash ≠ env.hashOf block := by
        rintro rfl
        simp [unknown] at found
      have kept := (lookup_addToBlockIndex unknown hash).trans ((if_neg other).trans found)
      exact ⟨⟨pindex, kept, haveData⟩, pindex, pindex, found, kept, rfl⟩
    · rw [addToBlockIndex, if_neg (by rw [unknown]; exact Bool.false_ne_true)]

theorem scoreBlock_pending (env : ChainEnv) (chainman : ChainstateManager) (block : CBlock)
    {hash : Uint256} (pindex : CBlockIndex) (pending : ¬chainman.blockIndex.Stored hash) :
    KeepsStored chainman.blockIndex (scoreBlock env chainman block hash pindex).1.blockIndex ∧
      ¬(scoreBlock env chainman block hash pindex).1.blockIndex.Stored hash := by
  have changed (change : CBlockIndex → CBlockIndex)
      (status : ∀ pindex, (change pindex).nStatus = pindex.nStatus) :
      KeepsStored chainman.blockIndex (chainman.blockIndex.modify hash change) ∧
        ¬(chainman.blockIndex.modify hash change).Stored hash := by
    refine ⟨.modify_pending pending, ?_⟩
    rintro ⟨entry, found, haveData⟩
    rw [BlockMap.lookup_modify_self] at found
    obtain ⟨before, foundBefore, rfl⟩ := Option.map_eq_some_iff.mp found
    rw [status] at haveData
    exact pending ⟨before, foundBefore, haveData⟩
  rcases scoreBlock_cases env chainman block hash pindex with
    ⟨_, score⟩ | ⟨_, _, score⟩ | ⟨_, vDagParents, dagData, _, _, score⟩
  · rw [score]
    exact ⟨.refl _, pending⟩
  · rw [score]
    exact changed _ fun _ => rfl
  · rw [score]
    rw [BlockMap.modify_modify]
    exact changed _ fun _ => rfl

theorem scoreBlock_entry (env : ChainEnv) (block : CBlock) {hash : Uint256} {pindex : CBlockIndex}
    (found : chainman.blockIndex.lookup hash = some pindex) :
    (scoreBlock env chainman block hash pindex).1.blocksUnlinked = chainman.blocksUnlinked ∧
      ∃ entry, (scoreBlock env chainman block hash pindex).1.blockIndex.lookup hash = some entry := by
  rcases scoreBlock_cases env chainman block hash pindex with
    ⟨_, score⟩ | ⟨_, _, score⟩ | ⟨_, vDagParents, dagData, _, _, score⟩
  all_goals rw [score]
  · exact ⟨rfl, pindex, found⟩
  · exact ⟨rfl, _, BlockMap.lookup_modify_self.trans (congrArg (Option.map _) found)⟩
  · rw [BlockMap.modify_modify]
    exact ⟨rfl, _, BlockMap.lookup_modify_self.trans (congrArg (Option.map _) found)⟩

end ChainstateManager

/-! ## The invariant -/

namespace CandidateNode

open BlockMap (KeepsStored)

variable {env : ChainEnv} {view : CandidateView} {node later : CandidateNode}
variable {root hash : Uint256} {queue : List Uint256}

def Frozen (node later : CandidateNode) : Prop :=
  ∀ chainstate ∈ node.chainstates, ∀ hash ∈ chainstate.setBlockIndexCandidates,
    node.chainman.blockIndex.SameKey later.chainman.blockIndex hash

def InOrder (view : CandidateView) (node : CandidateNode) : Prop :=
  ∀ chainstate ∈ node.chainstates,
    OrderedSet.Sorted (view.precedes node.chainman.blockIndex) chainstate.setBlockIndexCandidates

def Keeps (view : CandidateView) (node later : CandidateNode) : Prop :=
  node.Frozen later ∧ later.InOrder view

def waiting (node : CandidateNode) : List Uint256 := node.chainman.blocksUnlinked.map Prod.snd

structure KeysInv (view : CandidateView) (root : Uint256) (queue : List Uint256)
    (node : CandidateNode) : Prop where
  rooted : node.chainman.blockIndex.Stored root
  stored : ∀ chainstate ∈ node.chainstates, ∀ hash ∈ chainstate.setBlockIndexCandidates,
    node.chainman.blockIndex.Stored hash
  pending : ∀ hash ∈ queue ++ node.waiting, node.chainman.blockIndex.Stored hash
  once : (queue ++ node.waiting).Nodup
  apart : ∀ hash ∈ queue ++ node.waiting, ∀ chainstate ∈ node.chainstates,
    hash ∉ chainstate.setBlockIndexCandidates
  inOrder : node.InOrder view

namespace KeysInv

theorem change (inv : KeysInv view root queue node) (chainman : ChainstateManager)
    (unlinked : chainman.blocksUnlinked = node.chainman.blocksUnlinked)
    (kept : ∀ hash, node.chainman.blockIndex.Stored hash → chainman.blockIndex.Stored hash)
    (frozen : node.Frozen { node with chainman }) :
    Keeps view node { node with chainman } ∧ KeysInv view root queue { node with chainman } := by
  have inOrder : InOrder view { node with chainman } := by
    intro chainstate listed
    refine (inv.inOrder chainstate listed).congr ?_
    intro a memA b memB
    exact view.precedes_congr (frozen chainstate listed a memA) (frozen chainstate listed b memB)
  have waits : CandidateNode.waiting { node with chainman } = node.waiting :=
    congrArg (List.map Prod.snd) unlinked
  refine ⟨⟨frozen, inOrder⟩, kept root inv.rooted, ?_, ?_, ?_, ?_, inOrder⟩
  · intro chainstate listed hash mem
    exact kept hash (inv.stored chainstate listed hash mem)
  · rw [waits]
    intro hash mem
    exact kept hash (inv.pending hash mem)
  · rw [waits]
    exact inv.once
  · rw [waits]
    exact inv.apart

theorem keepsStored (inv : KeysInv view root queue node) (chainman : ChainstateManager)
    (unlinked : chainman.blocksUnlinked = node.chainman.blocksUnlinked)
    (keeps : KeepsStored node.chainman.blockIndex chainman.blockIndex) :
    Keeps view node { node with chainman } ∧ KeysInv view root queue { node with chainman } := by
  refine inv.change chainman unlinked (fun hash stored => (keeps hash stored).1) ?_
  intro chainstate listed hash mem
  exact (keeps hash (inv.stored chainstate listed hash mem)).2

theorem dequeue (inv : KeysInv view root (hash :: queue) node) : KeysInv view root queue node where
  rooted := inv.rooted
  stored := inv.stored
  pending other mem := inv.pending other (List.mem_cons_of_mem _ mem)
  once := (List.nodup_cons.mp inv.once).2
  apart other mem := inv.apart other (List.mem_cons_of_mem _ mem)
  inOrder := inv.inOrder

theorem clear (inv : KeysInv view root queue node) : KeysInv view root [] node := by
  induction queue with
  | nil => exact inv
  | cons hash queue ih => exact ih inv.dequeue

theorem of_perm (inv : KeysInv view root queue node) (queue' : List Uint256)
    (blocksUnlinked : List (Uint256 × Uint256))
    (perm : (queue' ++ blocksUnlinked.map Prod.snd).Perm (queue ++ node.waiting)) :
    KeysInv view root queue'
      { node with chainman := { node.chainman with blocksUnlinked } } where
  rooted := inv.rooted
  stored := inv.stored
  pending other mem := inv.pending other (perm.mem_iff.mp mem)
  once := perm.nodup_iff.mpr inv.once
  apart other mem := inv.apart other (perm.mem_iff.mp mem)
  inOrder := inv.inOrder

/-! ### One round of the loop -/

theorem link (inv : KeysInv view root (hash :: queue) node) :
    Keeps view node { node with chainman := node.chainman.linkBlock hash } ∧
      KeysInv view root
        (hash :: (queue ++ (node.chainman.blocksUnlinked.filter (·.1 = hash)).map (·.2)))
        { node with chainman := node.chainman.linkBlock hash } := by
  have kept : ∀ other, node.chainman.blockIndex.Stored other →
      (node.chainman.linkBlock hash).blockIndex.Stored other := by
    intro other stored
    by_cases same : other = hash
    · obtain ⟨pindex, found, haveData⟩ := stored
      subst same
      exact ⟨_, BlockMap.lookup_modify_self.trans (congrArg _ found), haveData⟩
    · exact (BlockMap.sameKey_modify_of_ne same stored).1
  have frozen : node.Frozen { node with chainman := node.chainman.linkBlock hash } := by
    intro chainstate listed other mem
    refine (BlockMap.sameKey_modify_of_ne ?_ (inv.stored chainstate listed other mem)).2
    rintro rfl
    exact inv.apart other List.mem_cons_self chainstate listed mem
  obtain ⟨keeps, changed⟩ := inv.change
    { node.chainman.linkBlock hash with blocksUnlinked := node.chainman.blocksUnlinked }
    rfl kept frozen
  refine ⟨keeps, changed.of_perm _ _ ?_⟩
  have split := (List.filter_append_perm (fun pair : Uint256 × Uint256 => decide (pair.1 = hash))
    node.chainman.blocksUnlinked).map Prod.snd
  simp only [List.map_append, ← decide_not] at split
  simp only [List.cons_append, List.append_assoc]
  exact (split.append_left queue).cons hash

theorem offer (addresses : Function.Injective view.address)
    (inv : KeysInv view root (hash :: queue) node) :
    Keeps view node (node.offer view hash) ∧ KeysInv view root queue (node.offer view hash) := by
  have inOrder : InOrder view (node.offer view hash) := by
    intro _ offered
    obtain ⟨chainstate, listed, rfl⟩ := List.mem_map.mp offered
    exact CandidateView.sorted_tryAddInOrder addresses hash (inv.inOrder chainstate listed)
  have frozen : node.Frozen (node.offer view hash) := by
    intro chainstate listed other mem
    exact (KeepsStored.refl _ other (inv.stored chainstate listed other mem)).2
  refine ⟨⟨frozen, inOrder⟩, inv.rooted, ?_, inv.dequeue.pending, inv.dequeue.once, ?_, inOrder⟩
  · intro _ offered other mem
    obtain ⟨chainstate, listed, rfl⟩ := List.mem_map.mp offered
    rcases CandidateView.mem_tryAddInOrder addresses mem with rfl | old
    · exact inv.pending other List.mem_cons_self
    · exact inv.stored chainstate listed other old
  · intro other waits _ offered mem
    obtain ⟨chainstate, listed, rfl⟩ := List.mem_map.mp offered
    rcases CandidateView.mem_tryAddInOrder addresses mem with rfl | old
    · exact (List.nodup_cons.mp inv.once).1 waits
    · exact inv.dequeue.apart other waits chainstate listed old

end KeysInv

theorem linkStates_passes (addresses : Function.Injective view.address) (fuel : Nat)
    (inv : KeysInv view root queue node) :
    Passes (Keeps view) (KeysInv view root []) node (linkStates view fuel queue node) := by
  induction fuel generalizing queue node with
  | zero => exact .done inv.clear
  | succ fuel ih =>
    cases queue with
    | nil => exact .done inv
    | cons hash queue =>
      obtain ⟨linked, invLinked⟩ := inv.link
      obtain ⟨offered, invOffered⟩ := invLinked.offer addresses
      exact .next linked (.next offered (ih invOffered))

/-! ### Bodies -/

variable {pindex : CBlockIndex}

theorem received_stored (node : CandidateNode) (block : CBlock)
    (found : node.chainman.blockIndex.lookup hash = some pindex) :
    (node.received block hash).chainman.blockIndex.Stored hash := by
  refine ⟨_, BlockMap.lookup_modify_self.trans (congrArg _ found), ?_⟩
  exact CBlockIndex.raiseValidity_congr (·.nStatus.haveData) (fun _ _ => rfl) _ _

theorem KeysInv.unlink (inv : KeysInv view root [hash] node) (hashPrev : Uint256) :
    Keeps view node (node.unlink (some hashPrev) hash) ∧
      KeysInv view root [] (node.unlink (some hashPrev) hash) := by
  have waits : KeysInv view root [] (node.unlink (some hashPrev) hash) := by
    refine inv.of_perm [] (node.chainman.blocksUnlinked ++ [(hashPrev, hash)]) ?_
    rw [List.nil_append, List.map_append]
    exact List.perm_append_comm
  refine ⟨⟨?_, waits.inOrder⟩, waits⟩
  intro chainstate listed other mem
  exact (KeepsStored.refl _ other (inv.stored chainstate listed other mem)).2

theorem KeysInv.receive (inv : KeysInv view root [] node) (block : CBlock)
    (found : node.chainman.blockIndex.lookup hash = some pindex)
    (pending : ¬node.chainman.blockIndex.Stored hash) :
    Keeps view node (node.received block hash) ∧
      KeysInv view root [hash] (node.received block hash) := by
  obtain ⟨keeps, changed⟩ := inv.keepsStored (node.received block hash).chainman rfl
    (.modify_pending pending)
  refine ⟨keeps, changed.rooted, changed.stored, ?_, ?_, ?_, changed.inOrder⟩
  · intro other mem
    rcases List.mem_cons.mp mem with rfl | waits
    · exact node.received_stored block found
    · exact changed.pending other waits
  · exact List.nodup_cons.mpr ⟨fun waits => pending (inv.pending hash waits), changed.once⟩
  · intro other mem chainstate listed candidate
    rcases List.mem_cons.mp mem with rfl | waits
    · exact pending (inv.stored chainstate listed other candidate)
    · exact changed.apart other waits chainstate listed candidate

theorem KeysInv.updateTips (inv : KeysInv view root [] node) (env : ChainEnv) (hash : Uint256) :
    Keeps view node { node with chainman := node.chainman.updateTips env hash } ∧
      KeysInv view root [] { node with chainman := node.chainman.updateTips env hash } := by
  have unlinked : (node.chainman.updateTips env hash).blocksUnlinked
      = node.chainman.blocksUnlinked := by grind [ChainstateManager.updateTips]
  apply inv.keepsStored _ unlinked
  rw [ChainstateManager.updateTips_blockIndex]
  exact .refl _

theorem receivedStates_passes (addresses : Function.Injective view.address) (block : CBlock)
    (pprev : Option Uint256) (first : Keeps view node (node.received block hash))
    (inv : KeysInv view root [hash] (node.received block hash)) :
    Passes (Keeps view) (KeysInv view root []) node (receivedStates view node block hash pprev) := by
  unfold receivedStates
  dsimp only
  split
  · exact .next first (linkStates_passes addresses _ inv)
  next prev found =>
    split
    · exact .next first (linkStates_passes addresses _ inv)
    · split
      · obtain ⟨hashPrev, rfl, _⟩ := Option.bind_eq_some_iff.mp found
        obtain ⟨keeps, waits⟩ := inv.unlink hashPrev
        exact .next first (.one keeps waits)
      · exact .one first inv.dequeue

theorem bodyStates_passes (addresses : Function.Injective view.address)
    (inv : KeysInv view root [] node) (input : ChainstateManager.BodyInput) (block : CBlock)
    (found : node.chainman.blockIndex.lookup hash = some pindex) :
    Passes (Keeps view) (KeysInv view root []) node
      (bodyStates env view node input block hash pindex) := by
  unfold bodyStates
  split
  · exact .done inv
  next processed =>
    have pending : ¬node.chainman.blockIndex.Stored hash := by
      rintro ⟨entry, foundEntry, haveData⟩
      grind [ChainstateManager.pending_of_not_skipsBody]
    split
    · split
      · exact .done inv
      · obtain ⟨keeps, marked⟩ := inv.keepsStored
          (node.chainman.modifyDirty hash CBlockIndex.setFailedValid) rfl
          (.modify (fun _ => rfl) fun _ => rfl)
        exact .one keeps marked
    · obtain ⟨kept, stillPending⟩ :=
        ChainstateManager.scoreBlock_pending env node.chainman block pindex pending
      obtain ⟨unlinked, entry, foundEntry⟩ := ChainstateManager.scoreBlock_entry env block found
      obtain ⟨keeps, scored⟩ := inv.keepsStored _ unlinked kept
      split
      next score =>
        rw [score] at keeps scored
        exact .one keeps scored
      next score =>
        rw [score] at keeps scored stillPending foundEntry
        obtain ⟨first, received⟩ := scored.receive block foundEntry stillPending
        have passes := receivedStates_passes addresses block pindex.pprev first received
        obtain ⟨last, tipped⟩ := passes.last.updateTips env hash
        exact .next keeps (passes.append (.one last tipped))

theorem arrivalStates_passes (addresses : Function.Injective view.address)
    (inv : KeysInv view env.hashGenesisBlock [] node) (arrival : Arrival) :
    Passes (Keeps view) (KeysInv view env.hashGenesisBlock []) node
      (arrivalStates env view node arrival) := by
  have genesis : (node.chainman.blockIndex.lookup env.hashGenesisBlock).isSome := by
    obtain ⟨pindex, found, _⟩ := inv.rooted
    rw [found]
    rfl
  have header (now : Int) (minPowChecked : Bool) (block : CBlockHeader) :=
    ChainstateManager.acceptBlockHeader_keepsStored now minPowChecked block genesis
  cases arrival with
  | header now minPowChecked block =>
    obtain ⟨kept, unlinked⟩ := header now minPowChecked block
    obtain ⟨keeps, accepted⟩ := inv.keepsStored _ unlinked kept
    exact .one keeps accepted
  | body input block =>
    obtain ⟨kept, unlinked⟩ := header input.now input.minPowChecked block.toCBlockHeader
    unfold arrivalStates
    dsimp only
    obtain ⟨keeps, accepted⟩ := inv.keepsStored _ unlinked kept
    generalize node.chainman.acceptBlockHeader env input.now input.minPowChecked
      block.toCBlockHeader = outcome at keeps accepted ⊢
    obtain ⟨chainman, invalid | hash⟩ := outcome
    · exact .one keeps accepted
    · dsimp only
      cases found : chainman.blockIndex.lookup hash with
      | none => exact .one keeps accepted
      | some pindex => exact .next keeps (bodyStates_passes addresses accepted input block found)

end CandidateNode

end QuantBTC.Node
