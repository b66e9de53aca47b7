/-
# Node.Restart -- does a restart change the DAG?

`dagData` is kept in memory only, and no load path computes it again: after a restart every
entry has the default data.  Extra parents are on disk, unless they were resolved by a body
that was then refused, which leaves no dirty mark.
-/
import QuantBTC.Node.Persistence

namespace QuantBTC.Node

set_option autoImplicit false

open Primitives Dag

/-! ## Transparency -/

def NodeState.restart (env : ChainEnv) (node : NodeState) : Option NodeState := node.flush.reload env

def ChainstateManager.dagFields (chainman : ChainstateManager) (hash : Uint256) :
    Option (List Uint256 × GhostdagData) :=
  (chainman.blockIndex.lookup hash).map fun pindex => (pindex.vDagParents, pindex.dagData)

def Accepted (env : ChainEnv) (node : NodeDag) : Arrival → Prop
  | .header _ _ header => (node.view (env.hashOf header)).isSome
  | .body _ block => node.stored (env.hashOf block.toCBlockHeader) = true

def AcceptsAll (env : ChainEnv) : ChainstateManager → List Arrival → Prop
  | _, [] => True
  | chainman, arrival :: rest =>
    Accepted env (arrive env chainman arrival).blockIndex.nodeDag arrival ∧
      AcceptsAll env (arrive env chainman arrival) rest

def RestartTransparent (env : ChainEnv) (node : NodeState) : Prop :=
  ∃ restarted, node.restart env = some restarted ∧
    (∀ hash, restarted.chainman.dagFields hash = node.chainman.dagFields hash) ∧
    ∀ arrivals, AcceptsAll env node.chainman arrivals → AcceptsAll env restarted.chainman arrivals →
      ∀ hash, (arrivals.foldl (arrive env) restarted.chainman).dagFields hash
        = (arrivals.foldl (arrive env) node.chainman).dagFields hash

structure RestartSafe (env : ChainEnv) (node : NodeState) : Prop where
  /-- The proof of work of the genesis block is good, or is not checked. -/
  genesis : env.params.fPowAllowMinDifficultyBlocks = true ∨
    Pow.checkProofOfWork (uintToArith256 env.hashGenesisBlock) env.genesis.nBits env.params = true
  unscored : ∀ hash pindex, node.chainman.blockIndex.find hash = some pindex → pindex.dagData = {}
  /-- A dirty entry is written with its extra parents if it has the DAG bit; the record of any
  other lists them already. -/
  listed : ∀ hash pindex, node.chainman.blockIndex.find hash = some pindex →
    if hash ∈ node.chainman.dirtyBlockindex then
      (pindex.nVersion &&& blockVersionDagmode != 0) = true ∨ pindex.vDagParents = []
    else (node.db.lookup hash).map (·.hashDagParents) = some pindex.vDagParents

/-! ## Blocks accepted afterwards -/

section Accepted

variable {env : ChainEnv} {chainman other : ChainstateManager}

theorem dagFields_eq (chainman : ChainstateManager) (hash : Uint256) :
    chainman.dagFields hash = (chainman.blockIndex.nodeDag.view hash).map
      fun entry => (entry.vDagParents, entry.dagData) := by
  simp only [ChainstateManager.dagFields, BlockMap.nodeDag, BlockMap.dagView, Option.map_map]
  rfl

theorem known_of_stored {index : BlockMap} {hash : Uint256}
    (stored : index.nodeDag.stored hash = true) : (index.nodeDag.view hash).isSome := by
  cases found : index.lookup hash with
  | none => simp [BlockMap.nodeDag, found] at stored
  | some pindex =>
    rw [BlockMap.view_of_lookup found]
    rfl

theorem arrive_nodeDag_eq (same : other.blockIndex.nodeDag = chainman.blockIndex.nodeDag)
    (genesis : (chainman.blockIndex.find env.hashGenesisBlock).isSome)
    (genesis' : (other.blockIndex.find env.hashGenesisBlock).isSome) (arrival : Arrival)
    (accepted : Accepted env (arrive env chainman arrival).blockIndex.nodeDag arrival)
    (accepted' : Accepted env (arrive env other arrival).blockIndex.nodeDag arrival) :
    (arrive env other arrival).blockIndex.nodeDag = (arrive env chainman arrival).blockIndex.nodeDag := by
  cases arrival with
  | header now minPowChecked header =>
    have step := arrive_header genesis now minPowChecked header
    have step' := arrive_header genesis' now minPowChecked header
    rw [same] at step'
    exact step.unique step' accepted accepted'
  | body input block =>
    obtain ⟨middle, first, second⟩ := arrive_body genesis input block
    obtain ⟨middle', first', second'⟩ := arrive_body genesis' input block
    rw [same] at first'
    have known : ∀ between later, NodeDag.HeaderStep env block.toCBlockHeader
          chainman.blockIndex.nodeDag between →
        NodeDag.BodyStep env block.toCBlockHeader between later →
        later.stored (env.hashOf block.toCBlockHeader) = true →
        (between.view (env.hashOf block.toCBlockHeader)).isSome := by
      intro between later header body stored
      cases before : chainman.blockIndex.nodeDag.stored (env.hashOf block.toCBlockHeader) with
      | true =>
        obtain ⟨entry, found⟩ := Option.isSome_iff_exists.mp (known_of_stored before)
        rw [header.view_eq found]
        rfl
      | false => exact body.known (header.stored_eq ▸ before) stored
    obtain rfl := first.unique first' (known _ _ first second accepted)
      (known _ _ first' second' accepted')
    exact second.unique second' accepted accepted'

theorem run_nodeDag_eq (arrivals : List Arrival)
    (same : other.blockIndex.nodeDag = chainman.blockIndex.nodeDag)
    (genesis : (chainman.blockIndex.find env.hashGenesisBlock).isSome)
    (genesis' : (other.blockIndex.find env.hashGenesisBlock).isSome)
    (accepts : AcceptsAll env chainman arrivals) (accepts' : AcceptsAll env other arrivals) :
    (arrivals.foldl (arrive env) other).blockIndex.nodeDag
      = (arrivals.foldl (arrive env) chainman).blockIndex.nodeDag := by
  induction arrivals generalizing chainman other with
  | nil => exact same
  | cons arrival rest ih =>
    exact ih (arrive_nodeDag_eq same genesis genesis' arrival accepts.1 accepts'.1)
      ((arrive_keeps genesis arrival).grows.isSome genesis)
      ((arrive_keeps genesis' arrival).grows.isSome genesis') accepts.2 accepts'.2

end Accepted

/-! ## The restarted node -/

section Restart

variable {env : ChainEnv} {node restarted : NodeState}

theorem Sound.loaded_of_restart (sound : Sound env node)
    (isRestarted : node.restart env = some restarted) :
    ChainstateManager.LoadedFrom env node.flush.db restarted.chainman := by
  obtain ⟨chainman, started, rfl⟩ := Option.map_eq_some_iff.mp isRestarted
  exact loaded_of_start sound.flush.disk sound.flush_rooted started

theorem Sound.restart_isSome_iff (sound : Sound env node) :
    (∃ restarted, node.restart env = some restarted) ↔
      env.params.fPowAllowMinDifficultyBlocks = true ∨
        Pow.checkProofOfWork (uintToArith256 env.hashGenesisBlock) env.genesis.nBits env.params
          = true := by
  have passes : ∀ hash diskindex, node.flush.db.lookup hash = some diskindex →
      (passesLoad env diskindex ↔ env.params.fPowAllowMinDifficultyBlocks = true ∨
        Pow.checkProofOfWork (uintToArith256 hash) diskindex.nBits env.params = true) := by
    intro hash diskindex found
    rw [passesLoad, sound.flush.disk.constructBlockHash found, Bool.or_eq_true]
  have genesisBits : ∀ diskindex, node.flush.db.lookup env.hashGenesisBlock = some diskindex →
      diskindex.nBits = env.genesis.nBits := by
    intro diskindex found
    have onDisk : node.flush.db.restored env.hashGenesisBlock = some diskindex.loadedEntry := by
      rw [BlockTreeDB.restored, found]
      rfl
    obtain ⟨pindex, foundEntry, same⟩ := sound.flush.agrees _ _ onDisk
    obtain ⟨genesis, foundGenesis, nBits⟩ := sound.flush.genesis
    cases foundGenesis.symm.trans foundEntry
    exact (CBlockIndex.nBits_eq_of_fixed same).symm.trans nBits
  constructor
  · rintro ⟨restarted, isRestarted⟩
    obtain ⟨chainman, started, rfl⟩ := Option.map_eq_some_iff.mp isRestarted
    obtain ⟨loaded, isLoaded, _⟩ := Option.map_eq_some_iff.mp started
    obtain ⟨diskindex, found⟩ := Option.isSome_iff_exists.mp sound.flush_rooted
    grind [ChainstateManager.passesLoad_of_loadBlockIndex]
  · intro genesis
    have allPass : ∀ hash diskindex, node.flush.db.lookup hash = some diskindex →
        passesLoad env diskindex := by
      intro hash diskindex found
      rw [passes hash diskindex found]
      by_cases isGenesis : hash = env.hashGenesisBlock
      · subst isGenesis
        rwa [genesisBits diskindex found]
      · refine .inr ((sound.flush.disk hash diskindex.loadedEntry ?_).pow isGenesis)
        rw [BlockTreeDB.restored, found]
        rfl
    obtain ⟨loaded, isLoaded, _⟩ := ChainstateManager.loadBlockIndex_spec sound.flush.disk allPass
    exact ⟨_, by rw [NodeState.restart, NodeState.reload, ChainstateManager.start, isLoaded]; rfl⟩

theorem Sound.restored_parents_iff (sound : Sound env node) {hash : Uint256}
    {pindex stored : CBlockIndex} (found : node.chainman.blockIndex.find hash = some pindex)
    (onDisk : node.flush.db.restored hash = some stored) :
    stored.vDagParents = pindex.vDagParents ↔
      if hash ∈ node.chainman.dirtyBlockindex then
        (pindex.nVersion &&& blockVersionDagmode != 0) = true ∨ pindex.vDagParents = []
      else (node.db.lookup hash).map (·.hashDagParents) = some pindex.vDagParents := by
  rw [sound.restored_flush] at onDisk
  split at onDisk
  next dirty =>
    rw [found] at onDisk
    cases onDisk
    rw [if_pos dirty, CBlockIndex.reloaded_vDagParents (sound.null_notMem found)]
    split
    next dag => exact iff_of_true rfl (.inl dag)
    next plain => exact ⟨fun none => .inr none.symm, fun none => (none.resolve_left plain).symm⟩
  next clean =>
    obtain ⟨diskindex, isRecord, rfl⟩ := Option.map_eq_some_iff.mp onDisk
    have parents : diskindex.loadedEntry.vDagParents = diskindex.hashDagParents :=
      filterMap_pointerTo (sound.notNull hash diskindex isRecord)
    rw [if_neg clean, isRecord, parents, Option.map_some, Option.some.injEq]

theorem restored_dagData {db : BlockTreeDB} {hash : Uint256} {pindex : CBlockIndex}
    (onDisk : db.restored hash = some pindex) : pindex.dagData = {} := by
  obtain ⟨diskindex, _, rfl⟩ := Option.map_eq_some_iff.mp onDisk
  rfl

theorem Sound.restart_nodeDag (sound : Sound env node) (safe : RestartSafe env node)
    (isRestarted : node.restart env = some restarted) :
    restarted.chainman.blockIndex.nodeDag = node.chainman.blockIndex.nodeDag := by
  have loaded := sound.loaded_of_restart isRestarted
  have entry : ∀ hash, (node.flush.db.restored hash).map CBlockIndex.dagEntry
        = (node.chainman.blockIndex.find hash).map CBlockIndex.dagEntry ∧
      (node.flush.db.restored hash).any (·.nStatus.haveData)
        = (node.chainman.blockIndex.find hash).any (·.nStatus.haveData) := by
    intro hash
    have written := sound.flush_written hash
    cases found : node.chainman.blockIndex.find hash with
    | none =>
      rw [found, Option.map_none, Option.map_eq_none_iff] at written
      rw [written]
      exact ⟨rfl, rfl⟩
    | some pindex =>
      rw [found, Option.map_some] at written
      obtain ⟨stored, onDisk, same⟩ := Option.map_eq_some_iff.mp written
      have fixed := CBlockIndex.fixed_eq_of_written same
      have status : stored.nStatus = pindex.nStatus := by
        change stored.written.nStatus = pindex.written.nStatus
        rw [same]
      rw [onDisk]
      refine ⟨congrArg some (DagEntry.ext ?_ ?_ ?_ ?_ ?_), congrArg BlockStatus.haveData status⟩
      · exact CBlockIndex.pprev_eq_of_fixed fixed
      · exact CBlockIndex.nHeight_eq_of_fixed fixed
      · exact CBlockIndex.nBits_eq_of_fixed fixed
      · exact (sound.restored_parents_iff found onDisk).mpr (safe.listed hash pindex found)
      · exact (restored_dagData onDisk).trans (safe.unscored hash pindex found).symm
  exact NodeDag.ext (funext fun hash => (loaded.view hash).trans (entry hash).1)
    (funext fun hash => (loaded.stored hash).trans (entry hash).2)

theorem Sound.safe_of_sameFields (sound : Sound env node)
    (isRestarted : node.restart env = some restarted)
    (same : ∀ hash, restarted.chainman.dagFields hash = node.chainman.dagFields hash) :
    RestartSafe env node := by
  have loaded := sound.loaded_of_restart isRestarted
  have entry : ∀ hash pindex, node.chainman.blockIndex.find hash = some pindex →
      ∃ stored, node.flush.db.restored hash = some stored ∧
        stored.vDagParents = pindex.vDagParents ∧ stored.dagData = pindex.dagData := by
    intro hash pindex found
    have fields := same hash
    rw [dagFields_eq, loaded.view, Option.map_map, ChainstateManager.dagFields,
      show node.chainman.blockIndex.lookup hash = some pindex from found, Option.map_some] at fields
    obtain ⟨stored, onDisk, eq⟩ := Option.map_eq_some_iff.mp fields
    exact ⟨stored, onDisk, congrArg Prod.fst eq, congrArg Prod.snd eq⟩
  refine ⟨sound.restart_isSome_iff.mp ⟨restarted, isRestarted⟩, fun hash pindex found => ?_,
    fun hash pindex found => ?_⟩
  · grind [restored_dagData]
  · obtain ⟨stored, onDisk, parents, _⟩ := entry hash pindex found
    exact (sound.restored_parents_iff found onDisk).mp parents

end Restart

/-- **A restart is transparent exactly when it is safe**, in every state that events lead to:
no entry has a score, and every record lists the parents of its entry. -/
theorem restartTransparent_iff (env : ChainEnv) (events : List Event) (node : NodeState)
    (reached : NodeState.ReachedBy env events node) :
    RestartTransparent env node ↔ RestartSafe env node := by
  have sound := sound_run reached
  constructor
  · rintro ⟨restarted, isRestarted, same, _⟩
    exact sound.safe_of_sameFields isRestarted same
  · intro safe
    obtain ⟨restarted, isRestarted⟩ := sound.restart_isSome_iff.mpr safe.genesis
    have sameDag := sound.restart_nodeDag safe isRestarted
    have known : (restarted.chainman.blockIndex.find env.hashGenesisBlock).isSome :=
      (sound.flush.reload isRestarted).known
    refine ⟨restarted, isRestarted, fun hash => ?_, fun arrivals accepts accepts' hash => ?_⟩
    · rw [dagFields_eq, dagFields_eq, sameDag]
    · rw [dagFields_eq, dagFields_eq,
        run_nodeDag_eq arrivals sameDag sound.known known accepts accepts']

/-! ## Two nodes -/

theorem forall_find {index : BlockMap} {Holds : Uint256 → CBlockIndex → Prop}
    (all : ∀ entry ∈ index.entries, Holds entry.1 entry.2) :
    ∀ hash pindex, index.find hash = some pindex → Holds hash pindex :=
  fun _ _ found => all _ (AList.mem_lookup_iff.mp found)

def siblingHeaders : List Arrival :=
  [announcedHeader (nonceBlock 1 1 []), announcedHeader (nonceBlock 2 1 []),
    announcedHeader (nonceBlock 3 2 [3])]

def headersWritten : NodeState :=
  NodeState.flush { chainman := runArrivals nonceChain siblingHeaders }

/-- A node that has only headers so far can be restarted; the merge keeps its extra parent. -/
theorem restartTransparent_headers :
    headersWritten.chainman.dagFields 4 = some ([3], {}) ∧
      RestartTransparent nonceChain headersWritten := by
  have reached : NodeState.ReachedBy nonceChain (siblingHeaders.map .arrival ++ [.flush])
      headersWritten := by
    rw [NodeState.ReachedBy, NodeState.runEvents_arrivals]
    rfl
  refine ⟨by decide +kernel, (restartTransparent_iff nonceChain _ headersWritten reached).mpr ?_⟩
  refine ⟨.inl rfl, forall_find ?_, forall_find ?_⟩
  · decide +kernel
  · decide +kernel

def oneBlock : NodeState where
  chainman := runArrivals nonceChain [requestedBody (nonceBlock 1 1 [])]

/-- The restarted node has block `2` without its score, and gives its child `3`, which both
nodes accept, blue score 1 instead of 2. -/
theorem restart_forgets_scores :
    NodeState.ReachedBy nonceChain [.arrival (requestedBody (nonceBlock 1 1 []))] oneBlock ∧
      ¬ RestartTransparent nonceChain oneBlock ∧
      ∃ restarted, oneBlock.restart nonceChain = some restarted ∧
        oneBlock.chainman.dagFields 2 = some ([], ⟨1, 1, [], [], 0⟩) ∧
        restarted.chainman.dagFields 2 = some ([], {}) ∧
        AcceptsAll nonceChain oneBlock.chainman [requestedBody (nonceBlock 2 2 [])] ∧
        AcceptsAll nonceChain restarted.chainman [requestedBody (nonceBlock 2 2 [])] ∧
        (arrive nonceChain oneBlock.chainman (requestedBody (nonceBlock 2 2 []))).dagFields 3
          = some ([], ⟨2, 2, [], [], 0⟩) ∧
        (arrive nonceChain restarted.chainman (requestedBody (nonceBlock 2 2 []))).dagFields 3
          = some ([], ⟨1, 2, [], [], 0⟩) := by
  have scored : oneBlock.chainman.dagFields 2 = some ([], ⟨1, 1, [], [], 0⟩) := by decide +kernel
  have outcome : (oneBlock.restart nonceChain).map (fun restarted =>
    let later := arrive nonceChain restarted.chainman (requestedBody (nonceBlock 2 2 []))
    (restarted.chainman.dagFields 2, later.blockIndex.nodeDag.stored 3, later.dagFields 3))
    = some (some ([], {}), true, some ([], ⟨1, 2, [], [], 0⟩)) := by decide +kernel
  obtain ⟨restarted, isRestarted, values⟩ := Option.map_eq_some_iff.mp outcome
  obtain ⟨forgotten, accepted, child⟩ :
      restarted.chainman.dagFields 2 = some ([], {}) ∧ _ ∧ _ := by simpa using values
  have stored : (arrive nonceChain oneBlock.chainman
      (requestedBody (nonceBlock 2 2 []))).blockIndex.nodeDag.stored 3 = true := by decide +kernel
  refine ⟨rfl, ?_, restarted, isRestarted, scored, forgotten, And.intro stored trivial,
    And.intro accepted trivial, by decide +kernel, child⟩
  rintro ⟨restarted', isRestarted', same, _⟩
  cases isRestarted'.symm.trans isRestarted
  have data := same 2
  rw [forgotten, scored] at data
  exact absurd data (by decide)

end QuantBTC.Node
