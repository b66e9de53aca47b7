/-
# Node.Persistence -- a node and its database

The events of a node with its block tree database: arrivals, the connection of a tip, changes
of failure flags, the pruning of a body, a write of the dirty entries, and a start from what
is on disk.  A start after a write is a clean restart, any other one loses what was not
written.

The functions that set or clear failure flags (`InvalidBlockFound`, `InvalidateBlock`,
`ResetBlockFailureFlags`) are one event that sets them to any value.
-/
import QuantBTC.Node.Loading

namespace QuantBTC.Node

set_option autoImplicit false

open Primitives Dag

/-! ## Events -/

def dagMergesetPruneDepth : Nat := 1000

namespace CBlockIndex

def pruneMergeset (pindex : CBlockIndex) : CBlockIndex :=
  if pindex.dagData.mergesetBlues = [] then pindex
  else { pindex with dagData := { pindex.dagData with mergesetBlues := [], mergesetReds := [] } }

def setFailure (failedValid failedChild : Bool) (pindex : CBlockIndex) : CBlockIndex :=
  { pindex with nStatus := { pindex.nStatus with failedValid, failedChild } }

def dropData (pindex : CBlockIndex) : CBlockIndex :=
  { pindex with nStatus := { pindex.nStatus with haveData := false } }

end CBlockIndex

namespace ChainstateManager

def connectTip (chainman : ChainstateManager) (hash : Uint256) : ChainstateManager :=
  match chainman.blockIndex.lookup hash with
  | none => chainman
  | some pindexNew =>
    let connected :=
      if pindexNew.isValid .scripts then chainman
      else chainman.modifyDirty hash (·.raiseValidity .scripts)
    if pindexNew.nHeight > dagMergesetPruneDepth then
      match connected.blockIndex.getAncestor hash (pindexNew.nHeight - dagMergesetPruneDepth) with
      | none => connected
      | some prune =>
        { connected with
          blockIndex := connected.blockIndex.modify prune CBlockIndex.pruneMergeset }
    else connected

def setFailure (chainman : ChainstateManager) (hash : Uint256) (failedValid failedChild : Bool) :
    ChainstateManager :=
  let marked := chainman.modifyDirty hash (CBlockIndex.setFailure failedValid failedChild)
  { marked with
    failedBlocks :=
      if failedValid then marked.failedBlocks.insert hash else marked.failedBlocks.erase hash }

def pruneBody (chainman : ChainstateManager) (hash : Uint256) : ChainstateManager :=
  let pruned := chainman.modifyDirty hash CBlockIndex.dropData
  { pruned with blocksUnlinked := pruned.blocksUnlinked.filter (·.2 ≠ hash) }

end ChainstateManager

structure NodeState where
  chainman : ChainstateManager
  db : BlockTreeDB := ∅

inductive Event where
  | arrival (arrival : Arrival)
  | connectTip (hash : Uint256)
  | setFailure (hash : Uint256) (failedValid failedChild : Bool)
  | pruneBody (hash : Uint256)
  | flush
  | reload

namespace NodeState

def flush (node : NodeState) : NodeState :=
  let (chainman, db) := node.chainman.writeBlockIndexDB node.db
  { chainman, db }

def reload (env : ChainEnv) (node : NodeState) : Option NodeState :=
  (ChainstateManager.start env node.db).map fun chainman => { node with chainman }

def step (env : ChainEnv) (node : NodeState) : Event → Option NodeState
  | .arrival arrival => some { node with chainman := arrive env node.chainman arrival }
  | .connectTip hash => some { node with chainman := node.chainman.connectTip hash }
  | .setFailure hash failedValid failedChild =>
    some { node with chainman := node.chainman.setFailure hash failedValid failedChild }
  | .pruneBody hash => some { node with chainman := node.chainman.pruneBody hash }
  | .flush => some node.flush
  | .reload => node.reload env

def runEvents (env : ChainEnv) : List Event → NodeState → Option NodeState
  | [], node => some node
  | event :: rest, node => (node.step env event).bind (runEvents env rest)

def initial (env : ChainEnv) : NodeState where
  chainman := .loadGenesisBlock env

def ReachedBy (env : ChainEnv) (events : List Event) (node : NodeState) : Prop :=
  runEvents env events (initial env) = some node

theorem runEvents_arrivals (env : ChainEnv) (arrivals : List Arrival) (rest : List Event)
    (node : NodeState) :
    runEvents env (arrivals.map .arrival ++ rest) node
      = runEvents env rest { node with chainman := arrivals.foldl (arrive env) node.chainman } := by
  induction arrivals generalizing node with
  | nil => rfl
  | cons arrival arrivals ih => exact ih _

end NodeState

/-! ## Events keep what is written -/

section Events

variable {env : ChainEnv} {chainman : ChainstateManager}

variable (hash : Uint256)

theorem connectTip_keeps : Keeps env chainman (chainman.connectTip hash) := by
  unfold ChainstateManager.connectTip
  split
  · exact .refl env _
  next pindexNew found =>
    have connected : Keeps env chainman (if pindexNew.isValid .scripts then chainman
        else chainman.modifyDirty hash (·.raiseValidity .scripts)) := by
      split
      · exact .refl env _
      · exact .modifyDirty (fun _ => CBlockIndex.fixed_raiseValidity ..)
          fun _ => CBlockIndex.vDagParents_raiseValidity ..
    have outside : ∀ pindex : CBlockIndex, pindex.pruneMergeset.written = pindex.written ∧
        pindex.pruneMergeset.vDagParents = pindex.vDagParents := by
      intro pindex
      unfold CBlockIndex.pruneMergeset
      split <;> exact ⟨rfl, rfl⟩
    dsimp only
    split
    · split
      · exact connected
      · refine connected.trans (.modify rfl (List.Subset.refl _) (fun pindex => ?_)
          (.inr fun pindex => (outside pindex).1) fun pindex _ _ mem => ?_)
        all_goals grind [CBlockIndex.fixed_eq_of_written]
    · exact connected

theorem setFailure_keeps (failedValid failedChild : Bool) :
    Keeps env chainman (chainman.setFailure hash failedValid failedChild) := by
  have marked : Keeps env chainman
      (chainman.modifyDirty hash (CBlockIndex.setFailure failedValid failedChild)) :=
    .modifyDirty (fun _ => rfl) fun _ => rfl
  exact marked.trans (.of_eq rfl rfl)

theorem pruneBody_keeps : Keeps env chainman (chainman.pruneBody hash) := by
  have pruned : Keeps env chainman (chainman.modifyDirty hash CBlockIndex.dropData) :=
    .modifyDirty (fun _ => rfl) fun _ => rfl
  exact pruned.trans (.of_eq rfl rfl)

theorem loadGenesisBlock_keeps (env : ChainEnv) : Keeps env {} (.loadGenesisBlock env) := by
  have added : Keeps env {} (ChainstateManager.addToBlockIndex env {} env.genesis.toCBlockHeader) :=
    ChainstateManager.addToBlockIndex_keeps rfl (.inr ⟨env.genesis_prev, rfl⟩)
      fun other => absurd rfl other
  exact added.trans
    (ChainstateManager.receivedBlockTransactions_keeps _ env.genesis env.hashGenesisBlock none)

theorem loadGenesisBlock_genesis (env : ChainEnv) :
    ∃ pindex, (ChainstateManager.loadGenesisBlock env).blockIndex.find env.hashGenesisBlock
      = some pindex ∧ pindex.nBits = env.genesis.nBits := by
  have added : ∀ hash, (ChainstateManager.addToBlockIndex env {}
      env.genesis.toCBlockHeader).blockIndex.lookup hash = _ :=
    ChainstateManager.lookup_addToBlockIndex rfl
  have received : Keeps env _ (ChainstateManager.loadGenesisBlock env) :=
    ChainstateManager.receivedBlockTransactions_keeps _ env.genesis env.hashGenesisBlock none
  obtain ⟨pindex, found, same⟩ := received.grows _ _ ((added env.hashGenesisBlock).trans (if_pos rfl))
  exact ⟨pindex, found, CBlockIndex.nBits_eq_of_fixed same⟩

end Events

/-! ## Writing and reading back -/

def CBlockIndex.reloaded (pindex : CBlockIndex) : CBlockIndex :=
  (CDiskBlockIndex.ofIndex pindex).readBack.loadedEntry

theorem CBlockIndex.reloaded_written {pindex : CBlockIndex} (notNull : pindex.pprev ≠ some 0) :
    pindex.reloaded.written = pindex.written := by
  have pointer : CDiskBlockIndex.pointerTo (pindex.pprev.getD 0) = pindex.pprev := by
    cases isPrev : pindex.pprev with
    | none => rfl
    | some hashPrev =>
      rw [isPrev] at notNull
      exact if_neg fun null => notNull (congrArg some null)
  by_cases dag : (pindex.nVersion &&& blockVersionDagmode != 0) = true
  · simp [reloaded, CDiskBlockIndex.readBack, CDiskBlockIndex.ofIndex, CDiskBlockIndex.loadedEntry,
      CDiskBlockIndex.assign, written, fixed, dag, pointer]
  · simp [reloaded, CDiskBlockIndex.readBack, CDiskBlockIndex.ofIndex, CDiskBlockIndex.loadedEntry,
      CDiskBlockIndex.assign, written, fixed, dag, pointer]

theorem filterMap_pointerTo {hashes : List Uint256} (notNull : 0 ∉ hashes) :
    hashes.filterMap CDiskBlockIndex.pointerTo = hashes := by
  have pointers : ∀ hash ∈ hashes, CDiskBlockIndex.pointerTo hash = some hash := by
    intro hash mem
    refine if_neg ?_
    rintro rfl
    exact notNull mem
  rw [List.filterMap_congr pointers, List.filterMap_some]

theorem CBlockIndex.reloaded_vDagParents {pindex : CBlockIndex} (notNull : 0 ∉ pindex.vDagParents) :
    pindex.reloaded.vDagParents =
      if pindex.nVersion &&& blockVersionDagmode != 0 then pindex.vDagParents else [] := by
  by_cases dag : (pindex.nVersion &&& blockVersionDagmode != 0) = true
  · simp [reloaded, CDiskBlockIndex.readBack, CDiskBlockIndex.ofIndex, CDiskBlockIndex.loadedEntry,
      CDiskBlockIndex.assign, dag, filterMap_pointerTo notNull]
  · simp [reloaded, CDiskBlockIndex.readBack, CDiskBlockIndex.ofIndex, CDiskBlockIndex.loadedEntry,
      CDiskBlockIndex.assign, dag]

/-! ## The invariant -/

structure Sound (env : ChainEnv) (node : NodeState) : Prop where
  genesis : ∃ pindex, node.chainman.blockIndex.find env.hashGenesisBlock = some pindex ∧
    pindex.nBits = env.genesis.nBits
  consistent : Consistent env node.chainman.blockIndex.find
  disk : Consistent env node.db.restored
  agrees : Grows node.db.restored node.chainman.blockIndex.find
  clean : ∀ hash, hash ∉ node.chainman.dirtyBlockindex →
    (node.db.restored hash).map CBlockIndex.written
      = (node.chainman.blockIndex.find hash).map CBlockIndex.written
  notNull : ∀ hash diskindex, node.db.lookup hash = some diskindex →
    0 ∉ diskindex.hashDagParents
  rooted : (∀ hash, node.db.lookup hash = none) ∨ (node.db.lookup env.hashGenesisBlock).isSome

theorem grows_of_written {entries later : Uint256 → Option CBlockIndex}
    (same : ∀ hash, (later hash).map CBlockIndex.written = (entries hash).map CBlockIndex.written) :
    Grows entries later := by
  intro hash pindex found
  have eq := same hash
  rw [found, Option.map_some] at eq
  obtain ⟨pindex', found', written⟩ := Option.map_eq_some_iff.mp eq
  exact ⟨pindex', found', CBlockIndex.fixed_eq_of_written written⟩

theorem Grows.trans {entries middle later : Uint256 → Option CBlockIndex}
    (first : Grows entries middle) (second : Grows middle later) : Grows entries later := by
  intro hash pindex found
  obtain ⟨pindex', found', same⟩ := first hash pindex found
  obtain ⟨pindex'', found'', same'⟩ := second hash pindex' found'
  exact ⟨pindex'', found'', same'.trans same⟩

namespace Sound

variable {env : ChainEnv} {node : NodeState}

theorem known (sound : Sound env node) :
    (node.chainman.blockIndex.find env.hashGenesisBlock).isSome := by
  obtain ⟨pindex, found, _⟩ := sound.genesis
  rw [found]
  rfl

variable {chainman : ChainstateManager}

theorem keeps (sound : Sound env node) (keeps : Keeps env node.chainman chainman) :
    Sound env { node with chainman } where
  genesis := by
    obtain ⟨pindex, found, nBits⟩ := sound.genesis
    obtain ⟨pindex', found', same⟩ := keeps.grows _ pindex found
    exact ⟨pindex', found', (CBlockIndex.nBits_eq_of_fixed same).trans nBits⟩
  consistent := keeps.consistent sound.consistent
  disk := sound.disk
  agrees := sound.agrees.trans keeps.grows
  clean hash unmarked := (sound.clean hash fun mem => unmarked (keeps.dirty mem)).trans
    (keeps.clean hash unmarked).symm
  notNull := sound.notNull
  rooted := sound.rooted

theorem start {db : BlockTreeDB} (empty : ∀ hash, db.lookup hash = none) :
    Sound env { chainman := .loadGenesisBlock env, db } := by
  have nothing : ∀ hash, db.restored hash = none := by
    intro hash
    rw [BlockTreeDB.restored, empty]
    rfl
  have keeps := loadGenesisBlock_keeps env
  have emptyOk : Consistent env (∅ : BlockMap).find := by
    intro hash pindex found
    simp [BlockMap.find, AList.lookup_empty] at found
  refine ⟨loadGenesisBlock_genesis env, keeps.consistent emptyOk, ?_, ?_, ?_, ?_, .inl empty⟩
  · intro hash pindex found
    simp [nothing] at found
  · intro hash pindex found
    simp [nothing] at found
  · intro hash unmarked
    rw [keeps.clean hash unmarked, nothing]
    rfl
  · intro hash diskindex found
    simp [empty] at found

/-! ### A write -/

theorem pprev_ne (sound : Sound env node) {hash : Uint256} {pindex : CBlockIndex}
    (found : node.chainman.blockIndex.find hash = some pindex) : pindex.pprev ≠ some 0 := by
  rcases (sound.consistent hash pindex found).prev with ⟨noPrev, _⟩ | ⟨hashPrev, prev, isPrev, foundPrev, _⟩
  · rw [noPrev]
    exact Option.some_ne_none _ |>.symm
  · rw [isPrev]
    exact fun null => sound.consistent.ne_zero foundPrev (Option.some.inj null)

theorem null_notMem (sound : Sound env node) {hash : Uint256} {pindex : CBlockIndex}
    (found : node.chainman.blockIndex.find hash = some pindex) : 0 ∉ pindex.vDagParents := by
  intro mem
  obtain ⟨parent, foundParent⟩ := Option.isSome_iff_exists.mp
    ((sound.consistent hash pindex found).parents 0 mem)
  exact sound.consistent.ne_zero foundParent rfl

theorem lookup_flush (node : NodeState) (hash : Uint256) :
    node.flush.db.lookup hash =
      if hash ∈ node.chainman.dirtyBlockindex then
        ((node.chainman.blockIndex.find hash).map
          fun pindex => (CDiskBlockIndex.ofIndex pindex).readBack).or (node.db.lookup hash)
      else node.db.lookup hash :=
  lookup_writeRecords ..

theorem restored_flush (sound : Sound env node) (hash : Uint256) :
    node.flush.db.restored hash =
      if hash ∈ node.chainman.dirtyBlockindex then
        (node.chainman.blockIndex.find hash).map CBlockIndex.reloaded
      else node.db.restored hash := by
  rw [BlockTreeDB.restored, lookup_flush]
  split
  · cases found : node.chainman.blockIndex.find hash with
    | some pindex => rfl
    | none =>
      cases old : node.db.restored hash with
      | none => exact old
      | some pindex =>
        obtain ⟨pindex', found', _⟩ := sound.agrees hash pindex old
        rw [found] at found'
        cases found'
  · rfl

theorem flush_written (sound : Sound env node) (hash : Uint256) :
    (node.flush.db.restored hash).map CBlockIndex.written
      = (node.chainman.blockIndex.find hash).map CBlockIndex.written := by
  rw [sound.restored_flush]
  split
  · cases found : node.chainman.blockIndex.find hash with
    | none => rfl
    | some pindex =>
      exact congrArg some (CBlockIndex.reloaded_written (sound.pprev_ne found))
  next unmarked => exact sound.clean hash unmarked

theorem flush_rooted (sound : Sound env node) :
    (node.flush.db.lookup env.hashGenesisBlock).isSome := by
  have onDisk := (grows_of_written sound.flush_written).isSome sound.known
  rwa [BlockTreeDB.restored, Option.isSome_map] at onDisk

theorem flush (sound : Sound env node) : Sound env node.flush := by
  have toDisk : Grows node.chainman.blockIndex.find node.flush.db.restored :=
    grows_of_written sound.flush_written
  have fromDisk : Grows node.flush.db.restored node.chainman.blockIndex.find :=
    grows_of_written fun hash => (sound.flush_written hash).symm
  refine ⟨sound.genesis, sound.consistent, ?_, fromDisk, fun hash _ => sound.flush_written hash,
    ?_, .inr sound.flush_rooted⟩
  · intro hash pindex found
    obtain ⟨entry, foundEntry, same⟩ := fromDisk hash pindex found
    have entryOk := sound.consistent hash entry foundEntry
    refine entryOk.of_fixed toDisk same.symm fun parent mem => ?_
    rw [sound.restored_flush] at found
    split at found
    · obtain ⟨entry', foundEntry', rfl⟩ := Option.map_eq_some_iff.mp found
      rw [CBlockIndex.reloaded_vDagParents (sound.null_notMem foundEntry')] at mem
      split at mem
      · exact toDisk.isSome ((sound.consistent hash entry' foundEntry').parents parent mem)
      · cases mem
    · exact (sound.agrees.trans toDisk).isSome ((sound.disk hash pindex found).parents parent mem)
  · intro hash diskindex found
    rw [lookup_flush] at found
    split at found
    · rcases Option.or_eq_some_iff.mp found with new | ⟨_, old⟩
      · obtain ⟨pindex, foundEntry, rfl⟩ := Option.map_eq_some_iff.mp new
        have notNull := sound.null_notMem foundEntry
        rw [CDiskBlockIndex.readBack]
        split
        · exact notNull
        · exact List.not_mem_nil
      · exact sound.notNull hash diskindex old
    · exact sound.notNull hash diskindex found

/-! ### A start -/

theorem loaded_of_start {db : BlockTreeDB} (disk : Consistent env db.restored)
    (rooted : (db.lookup env.hashGenesisBlock).isSome)
    (started : ChainstateManager.start env db = some chainman) :
    ChainstateManager.LoadedFrom env db chainman := by
  obtain ⟨loaded, isLoaded, rfl⟩ := Option.map_eq_some_iff.mp started
  obtain ⟨loaded', isLoaded', from'⟩ := ChainstateManager.loadBlockIndex_spec disk
    fun hash diskindex found => ChainstateManager.passesLoad_of_loadBlockIndex isLoaded found
  obtain rfl := Option.some.inj (isLoaded'.symm.trans isLoaded)
  have known : (loaded'.blockIndex.lookup env.hashGenesisBlock).isSome := by
    refine from'.grows.isSome ?_
    rwa [BlockTreeDB.restored, Option.isSome_map]
  rw [if_pos known]
  exact ⟨from'.consistent, from'.grows, from'.clean, from'.view, from'.stored⟩

theorem reload (sound : Sound env node) {later : NodeState}
    (started : node.reload env = some later) : Sound env later := by
  obtain ⟨chainman, isStarted, rfl⟩ := Option.map_eq_some_iff.mp started
  rcases sound.rooted with empty | rooted
  · obtain ⟨loaded, isLoaded, rfl⟩ := Option.map_eq_some_iff.mp isStarted
    obtain ⟨loaded', isLoaded', from'⟩ := ChainstateManager.loadBlockIndex_spec sound.disk
      fun hash diskindex found => ChainstateManager.passesLoad_of_loadBlockIndex isLoaded found
    obtain rfl := Option.some.inj (isLoaded'.symm.trans isLoaded)
    have unknown : ¬ (loaded'.blockIndex.lookup env.hashGenesisBlock).isSome := by
      have none := from'.view env.hashGenesisBlock
      rw [BlockTreeDB.restored, empty] at none
      simpa [BlockMap.nodeDag, BlockMap.dagView] using none
    rw [if_neg unknown]
    exact start empty
  · have from' := loaded_of_start sound.disk rooted isStarted
    obtain ⟨diskindex, isRecord⟩ := Option.isSome_iff_exists.mp rooted
    have onDisk : node.db.restored env.hashGenesisBlock = some diskindex.loadedEntry := by
      rw [BlockTreeDB.restored, isRecord]
      rfl
    refine ⟨?_, from'.consistent, sound.disk, from'.grows, ?_, sound.notNull, .inr rooted⟩
    · obtain ⟨pindex, found, same⟩ := from'.grows _ _ onDisk
      obtain ⟨before, foundBefore, sameBefore⟩ := sound.agrees _ _ onDisk
      obtain ⟨genesis, foundGenesis, nBits⟩ := sound.genesis
      grind [CBlockIndex.nBits_eq_of_fixed]
    · exact fun hash unmarked => (from'.clean hash unmarked).symm

theorem step (sound : Sound env node) {event : Event} {later : NodeState}
    (stepped : node.step env event = some later) : Sound env later := by
  cases event with
  | arrival arrival =>
    cases stepped
    exact sound.keeps (arrive_keeps sound.known arrival)
  | connectTip hash =>
    cases stepped
    exact sound.keeps (connectTip_keeps hash)
  | setFailure hash failedValid failedChild =>
    cases stepped
    exact sound.keeps (setFailure_keeps hash failedValid failedChild)
  | pruneBody hash =>
    cases stepped
    exact sound.keeps (pruneBody_keeps hash)
  | flush =>
    cases stepped
    exact sound.flush
  | reload => exact sound.reload stepped

end Sound

/-- **The invariant holds after any events.** -/
theorem sound_run {env : ChainEnv} {events : List Event} {node : NodeState}
    (reached : NodeState.ReachedBy env events node) : Sound env node := by
  have run : ∀ events start, Sound env start →
      NodeState.runEvents env events start = some node → Sound env node := by
    intro events
    induction events with
    | nil =>
      intro start sound isNode
      rwa [← Option.some.inj isNode]
    | cons event rest ih =>
      intro start sound isNode
      obtain ⟨next, stepped, others⟩ := Option.bind_eq_some_iff.mp isNode
      exact ih next (sound.step stepped) others
  exact run events _ (Sound.start fun _ => rfl) reached

theorem reachedBy_arrivals (env : ChainEnv) (arrivals : List Arrival) :
    NodeState.ReachedBy env (arrivals.map .arrival) { chainman := runArrivals env arrivals } := by
  have run := NodeState.runEvents_arrivals env arrivals [] (NodeState.initial env)
  rwa [List.append_nil] at run

theorem sound_arrivals (env : ChainEnv) (arrivals : List Arrival) :
    Sound env { chainman := runArrivals env arrivals } :=
  sound_run (reachedBy_arrivals env arrivals)

end QuantBTC.Node
