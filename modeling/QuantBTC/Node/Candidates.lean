/-
# Node.Candidates -- the order of the candidate set, in every run

An entry whose sort key changed while its pointer is in `setBlockIndexCandidates` would leave the
tree out of order.  Headers and bodies arrive in any order; between them the active chain may move
(`ConnectTip`, `SetTip`, blocks that are found invalid) and candidates may be erased.  Pruning,
which takes the body of an entry away, is left out.
-/
import QuantBTC.Node.CandidateKeys
import QuantBTC.Node.Persistence

namespace QuantBTC.Node

set_option autoImplicit false

open Primitives
open QuantBTC.Theory.Runs (Passes)

/-! ## Runs -/

inductive CandidateEvent where
  | arrival (arrival : Arrival)
  | connectTip (hash : Uint256)
  | setFailure (hash : Uint256) (failedValid failedChild : Bool)
  | setTip (chainstate : Nat) (tip : Option Uint256)
  | eraseCandidate (chainstate : Nat) (hash : Uint256)

namespace CandidateNode

variable (env : ChainEnv) (view : CandidateView)

def eventStates (node : CandidateNode) : CandidateEvent → List CandidateNode
  | .arrival arrival => arrivalStates env view node arrival
  | .connectTip hash => [{ node with chainman := node.chainman.connectTip hash }]
  | .setFailure hash failedValid failedChild =>
    [{ node with chainman := node.chainman.setFailure hash failedValid failedChild }]
  | .setTip chainstate tip =>
    [{ node with chainstates := node.chainstates.modify chainstate ({ · with tip }) }]
  | .eraseCandidate chainstate hash =>
    [{ node with
      chainstates := node.chainstates.modify chainstate fun chainstate =>
        { chainstate with
          setBlockIndexCandidates := chainstate.setBlockIndexCandidates.erase hash } }]

def step (node : CandidateNode) (event : CandidateEvent) : CandidateNode :=
  (eventStates env view node event).getLastD node

def genesisStates : List CandidateNode :=
  let added : CandidateNode :=
    { chainman := ChainstateManager.addToBlockIndex env {} env.genesis.toCBlockHeader }
  added :: receivedStates view added env.genesis env.hashGenesisBlock none

def trace (events : List CandidateEvent) : List CandidateNode :=
  {} :: (genesisStates env view ++
    Theory.Runs.gathered (step env view) (eventStates env view)
      ((genesisStates env view).getLastD {}) events)

/-! ### Every event keeps the order -/

variable {env view} {node : CandidateNode} {root : Uint256}

theorem KeysInv.shrink (inv : KeysInv view root [] node) (chainstates : List Chainstate)
    (smaller : ∀ chainstate ∈ chainstates, ∃ before ∈ node.chainstates,
      chainstate.setBlockIndexCandidates.Sublist before.setBlockIndexCandidates) :
    Keeps view node { node with chainstates } ∧ KeysInv view root [] { node with chainstates } := by
  have inOrder : InOrder view { node with chainstates } := by
    intro chainstate listed
    obtain ⟨before, listedBefore, sublist⟩ := smaller chainstate listed
    exact (inv.inOrder before listedBefore).sublist sublist
  refine ⟨⟨?_, inOrder⟩, inv.rooted, ?_, inv.pending, inv.once, ?_, inOrder⟩
  · intro chainstate listed other mem
    exact (BlockMap.KeepsStored.refl _ other (inv.stored chainstate listed other mem)).2
  · intro chainstate listed other mem
    obtain ⟨before, listedBefore, sublist⟩ := smaller chainstate listed
    exact inv.stored before listedBefore other (sublist.subset mem)
  · intro other waits chainstate listed mem
    obtain ⟨before, listedBefore, sublist⟩ := smaller chainstate listed
    exact inv.apart other waits before listedBefore (sublist.subset mem)

theorem mem_modify {α : Type} {items : List α} {i : Nat} {change : α → α} {item : α}
    (mem : item ∈ items.modify i change) : ∃ before ∈ items, item = before ∨ item = change before := by
  induction items generalizing i with
  | nil => simp at mem
  | cons first rest ih => grind

theorem connectTip_keepsStored (chainman : ChainstateManager) (hash : Uint256) :
    BlockMap.KeepsStored chainman.blockIndex (chainman.connectTip hash).blockIndex ∧
      (chainman.connectTip hash).blocksUnlinked = chainman.blocksUnlinked := by
  have pruned (pindex : CBlockIndex) : pindex.pruneMergeset.sortKey = pindex.sortKey ∧
      pindex.pruneMergeset.nStatus = pindex.nStatus := by
    unfold CBlockIndex.pruneMergeset
    split <;> exact ⟨rfl, rfl⟩
  have raised : BlockMap.KeepsStored chainman.blockIndex
      (chainman.modifyDirty hash (·.raiseValidity .scripts)).blockIndex :=
    .modify (fun pindex => CBlockIndex.raiseValidity_congr CBlockIndex.sortKey (fun _ _ => rfl) _ _)
      fun pindex => CBlockIndex.raiseValidity_congr (·.nStatus.haveData) (fun _ _ => rfl) _ _
  unfold ChainstateManager.connectTip
  split
  · exact ⟨.refl _, rfl⟩
  next pindexNew found =>
    -- the validity of the new tip is raised first, then an old mergeset is dropped
    have connected : ∀ connected : ChainstateManager,
        connected = (if pindexNew.isValid .scripts then chainman
          else chainman.modifyDirty hash (·.raiseValidity .scripts)) →
        BlockMap.KeepsStored chainman.blockIndex connected.blockIndex ∧
          connected.blocksUnlinked = chainman.blocksUnlinked := by
      rintro _ rfl
      split
      · exact ⟨.refl _, rfl⟩
      · exact ⟨raised, rfl⟩
    dsimp only
    generalize isConnected : (if pindexNew.isValid .scripts then chainman
      else chainman.modifyDirty hash (·.raiseValidity .scripts)) = after
    obtain ⟨kept, unlinked⟩ := connected after isConnected.symm
    split
    · split
      · exact ⟨kept, unlinked⟩
      · refine ⟨kept.trans (.modify (fun pindex => (pruned pindex).1) fun pindex => ?_), unlinked⟩
        rw [(pruned pindex).2]
    · exact ⟨kept, unlinked⟩

theorem eventStates_passes (addresses : Function.Injective view.address)
    (inv : KeysInv view env.hashGenesisBlock [] node) (event : CandidateEvent) :
    Passes (Keeps view) (KeysInv view env.hashGenesisBlock []) node
      (eventStates env view node event) := by
  have shrinks {which : Nat} (change : Chainstate → Chainstate)
      (smaller : ∀ before : Chainstate,
        (change before).setBlockIndexCandidates.Sublist before.setBlockIndexCandidates) :
      Passes (Keeps view) (KeysInv view env.hashGenesisBlock []) node
        [{ node with chainstates := node.chainstates.modify which change }] := by
    obtain ⟨keeps, changed⟩ := inv.shrink (node.chainstates.modify which change) <| by
      intro chainstate listed
      obtain ⟨before, listedBefore, rfl | rfl⟩ := mem_modify listed
      · exact ⟨chainstate, listedBefore, .refl _⟩
      · exact ⟨before, listedBefore, smaller before⟩
    exact .one keeps changed
  cases event with
  | arrival arrival => exact arrivalStates_passes addresses inv arrival
  | connectTip hash =>
    obtain ⟨kept, unlinked⟩ := connectTip_keepsStored node.chainman hash
    obtain ⟨keeps, connected⟩ := inv.keepsStored _ unlinked kept
    exact .one keeps connected
  | setFailure hash failedValid failedChild =>
    obtain ⟨keeps, marked⟩ := inv.keepsStored
      (node.chainman.setFailure hash failedValid failedChild) rfl
      (.modify (fun _ => rfl) fun _ => rfl)
    exact .one keeps marked
  | setTip which tip => exact shrinks _ fun before => .refl _
  | eraseCandidate which hash =>
    refine shrinks _ fun before => ?_
    exact List.erase_sublist

theorem keeps_of_empty {later : CandidateNode} (first : node.chainstates = [{}])
    (second : later.chainstates = [{}]) : Keeps view node later := by
  constructor
  · intro chainstate listed hash mem
    rw [first, List.mem_singleton] at listed
    subst listed
    cases mem
  · intro chainstate listed
    rw [second, List.mem_singleton] at listed
    subst listed
    exact List.Pairwise.nil

theorem genesisStates_passes (env : ChainEnv) (addresses : Function.Injective view.address) :
    Passes (Keeps view) (KeysInv view env.hashGenesisBlock []) {} (genesisStates env view) := by
  let added : CandidateNode :=
    { chainman := ChainstateManager.addToBlockIndex env {} env.genesis.toCBlockHeader }
  have unknown : ({} : ChainstateManager).blockIndex.lookup env.hashGenesisBlock = none := rfl
  have found := (ChainstateManager.lookup_addToBlockIndex unknown env.hashGenesisBlock).trans
    (if_pos rfl)
  have stored := added.received_stored env.genesis found
  have noneWaits : (added.received env.genesis env.hashGenesisBlock).waiting = [] := rfl
  have inv : KeysInv view env.hashGenesisBlock [env.hashGenesisBlock]
      (added.received env.genesis env.hashGenesisBlock) := by
    refine ⟨stored, ?_, ?_, ?_, ?_, ?_⟩
    · intro chainstate listed hash mem
      obtain rfl := List.mem_singleton.mp listed
      cases mem
    · rw [noneWaits]
      intro hash mem
      rwa [List.mem_singleton.mp mem]
    · rw [noneWaits]
      exact List.nodup_singleton _
    · intro _ _ chainstate listed mem
      obtain rfl := List.mem_singleton.mp listed
      cases mem
    · have empty : Keeps view added (added.received env.genesis env.hashGenesisBlock) :=
        keeps_of_empty rfl rfl
      exact empty.2
  exact .next (keeps_of_empty rfl rfl)
    (receivedStates_passes addresses env.genesis none (keeps_of_empty rfl rfl) inv)

theorem trace_passes (env : ChainEnv) (addresses : Function.Injective view.address)
    (events : List CandidateEvent) :
    ∃ states, trace env view events = {} :: states ∧
      Passes (Keeps view) (KeysInv view env.hashGenesisBlock []) {} states := by
  have genesis := genesisStates_passes env addresses
  refine ⟨_, rfl, genesis.append ?_⟩
  apply Passes.gathered (fun _ _ => rfl) _ genesis.last
  intro node event inv
  exact eventStates_passes addresses inv event

/-- **The sort keys of candidates are frozen.**  In every run, through all the states of every
header, body and received block, no sort key of a candidate changes, and the candidate sets are in
the order of `CBlockIndexWorkComparator`. -/
theorem candidate_keys_frozen (env : ChainEnv) (view : CandidateView)
    (addresses : Function.Injective view.address) (events : List CandidateEvent) :
    (trace env view events).IsChain Frozen ∧
      ∀ node ∈ trace env view events, node.InOrder view := by
  obtain ⟨states, isTrace, passes⟩ := trace_passes env addresses events
  rw [isTrace]
  constructor
  · exact passes.isChain.imp fun _ _ keeps => keeps.1
  · have empty : Keeps view {} {} := keeps_of_empty rfl rfl
    exact List.forall_mem_cons.mpr
      ⟨empty.2, passes.forall_later fun _ _ keeps => keeps.2⟩

def plainChain : ChainEnv := { nonceChain with dagArg := some false }

def waitingEvents : List CandidateEvent :=
  [.arrival (announcedHeader (nonceBlock 1 1 [])), .arrival (requestedBody (nonceBlock 2 2 [])),
    .arrival (requestedBody (nonceBlock 1 1 [])), .arrival (requestedBody (nonceBlock 3 1 []))]

/-- Block `3` waits for `2` and is linked with it; of the siblings `4` and `2` the one that was
received later comes first. -/
theorem candidate_keys_frozen_waiting :
    ((trace plainChain ⟨fun hash => hash.val, none⟩ waitingEvents).getLast?.map
        fun node => node.chainstates.map (·.setBlockIndexCandidates)) = some [[1, 4, 2, 3]] ∧
      (trace plainChain ⟨fun hash => hash.val, none⟩ waitingEvents).IsChain Frozen ∧
      ∀ node ∈ trace plainChain ⟨fun hash => hash.val, none⟩ waitingEvents,
        node.InOrder ⟨fun hash => hash.val, none⟩ :=
  ⟨by decide +kernel, candidate_keys_frozen plainChain _ Fin.val_injective waitingEvents⟩

end CandidateNode

end QuantBTC.Node
