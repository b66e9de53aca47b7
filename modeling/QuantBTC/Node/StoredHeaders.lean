/-
# Node.StoredHeaders -- does an entry give back its header?

`GetBlockHeader` builds a header from the fields of an entry and takes its extra parents from
`vDagParents`.  A parent that is unknown when the header is accepted is left out there, and a
body refills the list from what it lists itself.

A `History` is a node with the headers that were accepted, each when its entry was made.
-/
import QuantBTC.Node.Commitment

namespace QuantBTC.Node

set_option autoImplicit false

open Primitives Dag

/-! ## Headers that were accepted -/

structure History where
  node : NodeState
  accepted : Uint256 → Option CBlockHeader

namespace History

variable (env : ChainEnv)

def record (before later : ChainstateManager) (accepted : Uint256 → Option CBlockHeader) :
    Event → Uint256 → Option CBlockHeader
  | .arrival arrival =>
    let hash := env.hashOf arrival.carried
    if (before.blockIndex.lookup hash).isNone && (later.blockIndex.lookup hash).isSome then
      Function.update accepted hash (some arrival.carried)
    else accepted
  | _ => accepted

def step (history : History) (event : Event) : Option History :=
  (history.node.step env event).map fun later =>
    { node := later
      accepted := record env history.node.chainman later.chainman history.accepted event }

def run : List Event → History → Option History
  | [], history => some history
  | event :: rest, history => (history.step env event).bind (run rest)

def initial : History where
  node := .initial env
  accepted := Function.update (fun _ => none) env.hashGenesisBlock (some env.genesis.toCBlockHeader)

def Reproduced (history : History) : Prop :=
  ∀ hash pindex, history.node.chainman.blockIndex.lookup hash = some pindex →
    history.accepted hash = some pindex.getBlockHeader ∧
      env.hashOf pindex.getBlockHeader = hash ∧
      CBlockHeader.computeParentsRoot env.hash256 pindex.getBlockHeader.hashParents
        = pindex.getBlockHeader.hashParentsRoot

end History

def ParentsKnown (env : ChainEnv) (chainman : ChainstateManager) (arrival : Arrival) : Prop :=
  let hash := env.hashOf arrival.carried
  chainman.blockIndex.lookup hash = none →
    ((arrive env chainman arrival).blockIndex.lookup hash).isSome →
      ∀ parent ∈ arrival.carried.hashParents, (chainman.blockIndex.lookup parent).isSome

def ParentsAtHand (env : ChainEnv) (chainman : ChainstateManager) : Event → Prop
  | .arrival (.header now minPowChecked header) =>
    ParentsKnown env chainman (.header now minPowChecked header)
  | .arrival (.body input block) =>
    ParentsKnown env chainman (.body input block) ∧
      ∀ pindex, chainman.blockIndex.lookup (env.hashOf block.toCBlockHeader) = some pindex →
        block.hashParents.length ≤ pindex.vDagParents.length
  | _ => True

def AllAtHand (env : ChainEnv) : List Event → NodeState → Prop
  | [], _ => True
  | event :: rest, node => ParentsAtHand env node.chainman event ∧
      ∀ later, node.step env event = some later → AllAtHand env rest later

/-! ## Headers of entries -/

namespace CBlockIndex

@[simp] theorem getBlockHeader_raiseValidity (pindex : CBlockIndex) (upTo : BlockValidity) :
    (pindex.raiseValidity upTo).getBlockHeader = pindex.getBlockHeader :=
  raiseValidity_congr getBlockHeader (fun _ _ => rfl) pindex upTo

theorem reloaded_getBlockHeader {pindex : CBlockIndex} (parents : 0 ∉ pindex.vDagParents) (received : pindex.getBlockHeader.Received) :
    pindex.reloaded.getBlockHeader = pindex.getBlockHeader := by
  have pointer : (CDiskBlockIndex.pointerTo (pindex.pprev.getD 0)).getD 0 = pindex.pprev.getD 0 :=
    pointerTo_getD _
  have extra := reloaded_vDagParents parents
  by_cases dag : (pindex.nVersion &&& blockVersionDagmode != 0) = true
  · rw [if_pos dag] at extra
    rw [getBlockHeader, extra]
    simp [reloaded, CDiskBlockIndex.readBack, CDiskBlockIndex.ofIndex, CDiskBlockIndex.loadedEntry,
      CDiskBlockIndex.assign, getBlockHeader, dag, pointer]
  · rw [if_neg dag] at extra
    obtain ⟨noRoot, noParents⟩ := received.resolve_left dag
    rw [getBlockHeader, extra]
    have root : pindex.hashParentsRoot = 0 := noRoot
    have none : pindex.vDagParents = [] := noParents
    simp [reloaded, CDiskBlockIndex.readBack, CDiskBlockIndex.ofIndex, CDiskBlockIndex.loadedEntry,
      CDiskBlockIndex.assign, getBlockHeader, dag, pointer, root, none]

end CBlockIndex

namespace ChainstateManager

variable {env : ChainEnv} {chainman : ChainstateManager}

theorem newEntry_getBlockHeader {index : BlockMap} {block : CBlockHeader}
    (listed : block.isDagBlock = true ∨ block.hashParents = [])
    (prev : (index.lookup block.hashPrevBlock).isSome ∨ block.hashPrevBlock = 0)
    (parents : ∀ parent ∈ block.hashParents, (index.lookup parent).isSome) :
    (newEntry index block).getBlockHeader = block := by
  have extra : (if block.isDagBlock then
      block.hashParents.filter fun parent => (index.lookup parent).isSome else [])
        = block.hashParents := by grind [List.filter_eq_self]
  have pointer : ((index.lookup block.hashPrevBlock).map fun _ => block.hashPrevBlock).getD 0
      = block.hashPrevBlock := by
    cases found : index.lookup block.hashPrevBlock with
    | none =>
      rw [found] at prev
      exact (prev.resolve_left Bool.false_ne_true).symm
    | some pprev => rfl
  unfold newEntry
  rw [CBlockIndex.getBlockHeader_raiseValidity, CBlockIndex.getBlockHeader, extra, pointer]
  rfl

theorem resolvedParents_of_enough {index : BlockMap} {block : CBlock} {pindex : CBlockIndex}
    (enough : block.hashParents.length ≤ pindex.vDagParents.length) :
    resolvedParents index block pindex = (pindex.vDagParents, none) := by
  unfold resolvedParents
  rw [if_neg]
  simp [enough]

theorem acceptBody_sameHeaders (input : BodyInput) (block : CBlock) {hash : Uint256}
    {pindex : CBlockIndex} (found : chainman.blockIndex.lookup hash = some pindex)
    (enough : block.hashParents.length ≤ pindex.vDagParents.length) :
    chainman.blockIndex.SameHeaders (chainman.acceptBody env input block hash pindex).1.blockIndex := by
  have resolved : resolvedParents chainman.blockIndex block pindex = (pindex.vDagParents, none) :=
    resolvedParents_of_enough enough
  have same : ∀ entry, chainman.blockIndex.lookup hash = some entry →
      (entry.setParents pindex.vDagParents).getBlockHeader = entry.getBlockHeader := by
    intro entry isEntry
    cases found.symm.trans isEntry
    rfl
  have effect : BodyEffect env block hash pindex chainman.blockIndex
      (chainman.acceptBody env input block hash pindex).1.blockIndex :=
    acceptBody_effect input block hash pindex
  cases effect with
  | same unchanged => exact unchanged.sameHeaders
  | unscored _ _ later =>
    rw [resolved] at later
    exact .trans (.modify same) later.sameHeaders
  | scored _ _ vDagParents dagData again _ later =>
    obtain rfl : pindex.vDagParents = vDagParents := congrArg Prod.fst (resolved.symm.trans again)
    refine .trans (.modify ?_) later.sameHeaders
    exact same
  | plain _ _ later =>
    refine .trans (.modify ?_) later.sameHeaders
    exact fun _ _ => rfl

theorem acceptBlockHeader_headers (now : Int) (minPowChecked : Bool) {block : CBlockHeader}
    (genesis : (chainman.blockIndex.lookup env.hashGenesisBlock).isSome) (received : block.Received)
    (parents : chainman.blockIndex.lookup (env.hashOf block) = none →
      ((chainman.acceptBlockHeader env now minPowChecked block).1.blockIndex.lookup
        (env.hashOf block)).isSome →
      ∀ parent ∈ block.hashParents, (chainman.blockIndex.lookup parent).isSome) :
    chainman.blockIndex.SameHeaders
        (chainman.acceptBlockHeader env now minPowChecked block).1.blockIndex ∨
      (chainman.blockIndex.lookup (env.hashOf block) = none ∧
        ((chainman.acceptBlockHeader env now minPowChecked block).1.blockIndex.lookup
          (env.hashOf block)).map CBlockIndex.getBlockHeader = some block ∧
        ∀ hash, hash ≠ env.hashOf block →
          (chainman.acceptBlockHeader env now minPowChecked block).1.blockIndex.lookup hash
            = chainman.blockIndex.lookup hash) := by
  rcases acceptBlockHeader_cases now minPowChecked block genesis with
    same | ⟨added, unknown, passed⟩
  · exact .inl same.sameHeaders
  · have lookups := lookup_addToBlockIndex unknown
    rw [added] at parents ⊢
    have new := (lookups (env.hashOf block)).trans (if_pos rfl)
    refine .inr ⟨unknown, ?_, fun hash other => (lookups hash).trans (if_neg other)⟩
    have known : ∀ hash, (chainman.blockIndex.lookup hash).isSome →
        ((chainman.blockIndex.insert (env.hashOf block) (.ofHeader block)).lookup hash).isSome := by
      intro hash isKnown
      rw [AList.lookup_isSome, AList.mem_insert]
      exact .inr (AList.lookup_isSome.mp isKnown)
    rw [new, Option.map_some]
    refine congrArg some (newEntry_getBlockHeader (received.imp_right And.right)
      (.inl (known _ ?_)) fun parent mem => ?_)
    · exact Option.isSome_iff_exists.mpr (checkNewHeader_prev passed)
    · refine known parent (parents unknown ?_ parent mem)
      rw [new]
      rfl

end ChainstateManager

theorem acceptBlock_sameHeaders {env : ChainEnv} {chainman : ChainstateManager}
    (input : ChainstateManager.BodyInput) (block : CBlock)
    (enough : ∀ pindex, (chainman.acceptBlockHeader env input.now input.minPowChecked
      block.toCBlockHeader).1.blockIndex.lookup (env.hashOf block.toCBlockHeader) = some pindex →
      block.hashParents.length ≤ pindex.vDagParents.length) :
    (chainman.acceptBlockHeader env input.now input.minPowChecked
        block.toCBlockHeader).1.blockIndex.SameHeaders
      (arrive env chainman (.body input block)).blockIndex := by
  simp only [arrive, ChainstateManager.acceptBlock]
  rcases result : chainman.acceptBlockHeader env input.now input.minPowChecked block.toCBlockHeader
    with ⟨accepted, invalid | hash⟩
  · exact .refl _
  · obtain rfl : hash = env.hashOf block.toCBlockHeader :=
      ChainstateManager.acceptBlockHeader_ok (congrArg Prod.snd result)
    rw [result] at enough
    dsimp only
    split
    · exact .refl _
    · grind [ChainstateManager.acceptBody_sameHeaders]

theorem arrive_headers {env : ChainEnv} {chainman : ChainstateManager} (arrival : Arrival)
    (genesis : (chainman.blockIndex.lookup env.hashGenesisBlock).isSome)
    (received : arrival.carried.Received)
    (atHand : ParentsAtHand env chainman (.arrival arrival)) :
    chainman.blockIndex.SameHeaders (arrive env chainman arrival).blockIndex ∨
      (chainman.blockIndex.lookup (env.hashOf arrival.carried) = none ∧
        ((arrive env chainman arrival).blockIndex.lookup (env.hashOf arrival.carried)).map
          CBlockIndex.getBlockHeader = some arrival.carried ∧
        ∀ hash, hash ≠ env.hashOf arrival.carried →
          ((arrive env chainman arrival).blockIndex.lookup hash).map CBlockIndex.getBlockHeader
            = (chainman.blockIndex.lookup hash).map CBlockIndex.getBlockHeader) := by
  cases arrival with
  | header now minPowChecked header =>
    rcases ChainstateManager.acceptBlockHeader_headers now minPowChecked genesis received atHand
      with same | ⟨unknown, new, others⟩
    · exact .inl same
    · exact .inr ⟨unknown, new, fun hash other => congrArg _ (others hash other)⟩
  | body input block =>
    change block.toCBlockHeader.Received at received
    have isSome_iff : ∀ (index : BlockMap) hash,
        (index.nodeDag.view hash).isSome ↔ (index.lookup hash).isSome := by
      intro index hash
      simp [BlockMap.nodeDag, BlockMap.dagView]
    have stays := (arrive_bodyStep env chainman input block).isSome_iff
      (env.hashOf block.toCBlockHeader)
    rw [isSome_iff, isSome_iff] at stays
    have parentsOf : ∀ {header : CBlockHeader} {entry : Option CBlockIndex} {pindex : CBlockIndex},
        entry = some pindex → entry.map CBlockIndex.getBlockHeader = some header →
        pindex.vDagParents = header.hashParents := by
      rintro header _ pindex rfl same
      exact congrArg CBlockHeader.hashParents (Option.some.inj same)
    rcases ChainstateManager.acceptBlockHeader_headers input.now input.minPowChecked genesis
      received (fun unknown known => atHand.1 unknown (stays.mpr known)) with
      same | ⟨unknown, new, others⟩
    · refine .inl (same.trans (acceptBlock_sameHeaders input block fun pindex found => ?_))
      have sameHeader := same (env.hashOf block.toCBlockHeader)
      rw [found, Option.map_some] at sameHeader
      obtain ⟨entry, isEntry, sameFields⟩ := Option.map_eq_some_iff.mp sameHeader.symm
      have sameParents : entry.vDagParents = pindex.vDagParents :=
        congrArg CBlockHeader.hashParents sameFields
      rw [← sameParents]
      exact atHand.2 entry isEntry
    · have body := acceptBlock_sameHeaders input block
        fun pindex found => (congrArg List.length (parentsOf found new)).ge
      refine .inr ⟨unknown, (body _).trans new, fun hash other => (body hash).trans ?_⟩
      exact congrArg _ (others hash other)

/-! ## Events that change no header -/

section Events

variable {chainman : ChainstateManager}

variable (hash : Uint256)

theorem connectTip_sameHeaders :
    chainman.blockIndex.SameHeaders (chainman.connectTip hash).blockIndex := by
  unfold ChainstateManager.connectTip
  split
  · exact .refl _
  next pindexNew _ =>
    have connected : chainman.blockIndex.SameHeaders
        (if pindexNew.isValid .scripts then chainman
          else chainman.modifyDirty hash (·.raiseValidity .scripts)).blockIndex := by
      split
      · exact .refl _
      · exact .modify fun _ _ => CBlockIndex.getBlockHeader_raiseValidity ..
    dsimp only
    split
    · split
      · exact connected
      · refine connected.trans (.modify fun pindex _ => ?_)
        unfold CBlockIndex.pruneMergeset
        split <;> rfl
    · exact connected

theorem setFailure_sameHeaders (failedValid failedChild : Bool) :
    chainman.blockIndex.SameHeaders (chainman.setFailure hash failedValid failedChild).blockIndex :=
  .modify fun _ _ => rfl

theorem pruneBody_sameHeaders :
    chainman.blockIndex.SameHeaders (chainman.pruneBody hash).blockIndex :=
  .modify fun _ _ => rfl

end Events

theorem loadGenesisBlock_headers (env : ChainEnv) (hash : Uint256) :
    ((ChainstateManager.loadGenesisBlock env).blockIndex.lookup hash).map CBlockIndex.getBlockHeader
      = if hash = env.hashGenesisBlock then some env.genesis.toCBlockHeader else none := by
  have received := ChainstateManager.receivedBlockTransactions_sameCores
    (ChainstateManager.addToBlockIndex env {} env.genesis.toCBlockHeader) env.genesis
    env.hashGenesisBlock none
  have stored : (ChainstateManager.addToBlockIndex env {}
      env.genesis.toCBlockHeader).blockIndex.SameHeaders
        (ChainstateManager.loadGenesisBlock env).blockIndex := by
    refine .trans (.modify ?_) received.sameHeaders
    exact fun _ _ => rfl
  change _ = if hash = env.hashOf env.genesis.toCBlockHeader then _ else _
  rw [stored hash, ChainstateManager.lookup_addToBlockIndex rfl]
  split
  · rw [Option.map_some]
    refine congrArg some (ChainstateManager.newEntry_getBlockHeader (.inr env.genesis_parents)
      (.inr env.genesis_prev) fun parent mem => ?_)
    simp [env.genesis_parents] at mem
  · rfl

/-! ## The invariant -/

structure Faithful (env : ChainEnv) (history : History) : Prop where
  sound : Sound env history.node
  genesis : history.accepted env.hashGenesisBlock = some env.genesis.toCBlockHeader
  entries : ∀ hash pindex, history.node.chainman.blockIndex.find hash = some pindex →
    history.accepted hash = some pindex.getBlockHeader
  disk : ∀ hash pindex, history.node.db.restored hash = some pindex →
    history.accepted hash = some pindex.getBlockHeader
  valid : ∀ hash header, history.accepted hash = some header → header.Received ∧
    CBlockHeader.computeParentsRoot env.hash256 header.hashParents = header.hashParentsRoot

namespace Faithful

variable {env : ChainEnv} {history : History}

theorem reproduced (faithful : Faithful env history) : history.Reproduced env := by
  intro hash pindex found
  have accepted := faithful.entries hash pindex found
  exact ⟨accepted, (faithful.sound.consistent hash pindex found).named,
    (faithful.valid hash _ accepted).2⟩

theorem entries_of_map {accepted : Uint256 → Option CBlockHeader}
    {entries later : Uint256 → Option CBlockIndex}
    (faithful : ∀ hash pindex, entries hash = some pindex →
      accepted hash = some pindex.getBlockHeader)
    (same : ∀ hash, (later hash).map CBlockIndex.getBlockHeader
      = (entries hash).map CBlockIndex.getBlockHeader) :
    ∀ hash pindex, later hash = some pindex → accepted hash = some pindex.getBlockHeader := by
  intro hash pindex found
  have eq := same hash
  rw [found, Option.map_some] at eq
  obtain ⟨entry, isEntry, sameHeader⟩ := Option.map_eq_some_iff.mp eq.symm
  rw [faithful hash entry isEntry, sameHeader]

theorem of_sameHeaders (faithful : Faithful env history) {chainman : ChainstateManager}
    (keeps : Keeps env history.node.chainman chainman)
    (same : history.node.chainman.blockIndex.SameHeaders chainman.blockIndex) :
    Faithful env { history with node := { history.node with chainman } } where
  sound := faithful.sound.keeps keeps
  genesis := faithful.genesis
  entries := entries_of_map faithful.entries same
  disk := faithful.disk
  valid := faithful.valid

theorem of_new (on : env.dagMode = true) (faithful : Faithful env history) {arrival : Arrival}
    (received : arrival.carried.Received)
    (unknown : history.node.chainman.blockIndex.lookup (env.hashOf arrival.carried) = none)
    (new : ((arrive env history.node.chainman arrival).blockIndex.lookup
      (env.hashOf arrival.carried)).map CBlockIndex.getBlockHeader = some arrival.carried)
    (others : ∀ hash, hash ≠ env.hashOf arrival.carried →
      ((arrive env history.node.chainman arrival).blockIndex.lookup hash).map
        CBlockIndex.getBlockHeader
        = (history.node.chainman.blockIndex.lookup hash).map CBlockIndex.getBlockHeader) :
    Faithful env
      { node := { history.node with chainman := arrive env history.node.chainman arrival }
        accepted := Function.update history.accepted (env.hashOf arrival.carried)
          (some arrival.carried) } := by
  have sound : Sound env { history.node with chainman := arrive env history.node.chainman arrival } :=
    faithful.sound.keeps (arrive_keeps faithful.sound.known arrival)
  have notGenesis : env.hashGenesisBlock ≠ env.hashOf arrival.carried := by
    intro same
    have known := faithful.sound.known
    rw [same, BlockMap.find, unknown] at known
    cases known
  refine ⟨sound, ?_, fun hash pindex found => ?_, fun hash pindex found => ?_, ?_⟩
  · exact (Function.update_of_ne notGenesis ..).trans faithful.genesis
  · by_cases same : hash = env.hashOf arrival.carried
    · grind
    · have eq := others hash same
      rw [show (arrive env history.node.chainman arrival).blockIndex.lookup hash = some pindex
        from found, Option.map_some] at eq
      obtain ⟨entry, isEntry, sameHeader⟩ := Option.map_eq_some_iff.mp eq.symm
      refine (Function.update_of_ne same ..).trans ?_
      rw [faithful.entries hash entry isEntry, sameHeader]
  · -- a record has its entry, so the new header has no record
    have other : hash ≠ env.hashOf arrival.carried := by
      rintro rfl
      obtain ⟨entry, isEntry, _⟩ := faithful.sound.agrees _ pindex found
      simp [BlockMap.find, unknown] at isEntry
    exact (Function.update_of_ne other ..).trans (faithful.disk hash pindex found)
  · intro hash header isAccepted
    change Function.update history.accepted _ _ hash = some header at isAccepted
    by_cases same : hash = env.hashOf arrival.carried
    · subst same
      rw [Function.update_self] at isAccepted
      cases isAccepted
      refine ⟨received, ?_⟩
      rcases received with dag | ⟨noRoot, noParents⟩
      · have view : history.node.chainman.blockIndex.nodeDag.view (env.hashOf arrival.carried)
            = none := by
          simp [BlockMap.nodeDag, BlockMap.dagView, unknown]
        obtain ⟨pindex, found, _⟩ := Option.map_eq_some_iff.mp new
        obtain ⟨now, passed⟩ := checked_of_new faithful.sound.known arrival view
          (Option.isSome_iff_exists.mpr ⟨_, BlockMap.view_of_lookup found⟩)
        exact parentsRoot_of_passed on dag passed
      · rw [noRoot, noParents]
        rfl
    · rw [Function.update_of_ne same] at isAccepted
      exact faithful.valid hash header isAccepted

theorem arrival (on : env.dagMode = true) (faithful : Faithful env history) {arrival : Arrival}
    (received : arrival.carried.Received)
    (atHand : ParentsAtHand env history.node.chainman (.arrival arrival)) :
    Faithful env
      { node := { history.node with chainman := arrive env history.node.chainman arrival }
        accepted := History.record env history.node.chainman
          (arrive env history.node.chainman arrival) history.accepted (.arrival arrival) } := by
  rw [History.record]
  rcases arrive_headers arrival faithful.sound.known received atHand with
    same | ⟨unknown, new, others⟩
  · have notNew : ¬ ((history.node.chainman.blockIndex.lookup (env.hashOf arrival.carried)).isNone &&
        ((arrive env history.node.chainman arrival).blockIndex.lookup
          (env.hashOf arrival.carried)).isSome) = true := by
      rw [Bool.and_eq_true]
      rintro ⟨unknown, known⟩
      have eq := same (env.hashOf arrival.carried)
      rw [Option.isNone_iff_eq_none.mp unknown, Option.map_none, Option.map_eq_none_iff] at eq
      simp [eq] at known
    rw [if_neg notNew]
    exact faithful.of_sameHeaders (arrive_keeps faithful.sound.known arrival) same
  · obtain ⟨pindex, found, _⟩ := Option.map_eq_some_iff.mp new
    rw [if_pos (by rw [unknown, found]; rfl)]
    exact faithful.of_new on received unknown new others

theorem flush (faithful : Faithful env history) :
    Faithful env { history with node := history.node.flush } where
  sound := faithful.sound.flush
  genesis := faithful.genesis
  entries := faithful.entries
  disk hash pindex found := by
    rw [faithful.sound.restored_flush] at found
    split at found
    · obtain ⟨entry, isEntry, rfl⟩ := Option.map_eq_some_iff.mp found
      have accepted := faithful.entries hash entry isEntry
      rw [CBlockIndex.reloaded_getBlockHeader (faithful.sound.null_notMem isEntry)
        (faithful.valid hash _ accepted).1]
      exact accepted
    · exact faithful.disk hash pindex found
  valid := faithful.valid

theorem reload (faithful : Faithful env history) {later : NodeState}
    (started : history.node.reload env = some later) :
    Faithful env { history with node := later } := by
  refine ⟨faithful.sound.reload started, faithful.genesis, ?_, ?_, faithful.valid⟩
  · obtain ⟨chainman, isStarted, rfl⟩ := Option.map_eq_some_iff.mp started
    obtain ⟨loaded, isLoaded, rfl⟩ := Option.map_eq_some_iff.mp isStarted
    split
    · have headers := ChainstateManager.loadBlockIndex_headers faithful.sound.disk isLoaded
      exact entries_of_map faithful.disk headers
    · intro hash pindex found
      have eq := loadGenesisBlock_headers env hash
      rw [show (ChainstateManager.loadGenesisBlock env).blockIndex.lookup hash = some pindex
        from found, Option.map_some] at eq
      split at eq
      next same =>
        rw [same, eq]
        exact faithful.genesis
      · cases eq
  · obtain ⟨chainman, _, rfl⟩ := Option.map_eq_some_iff.mp started
    exact faithful.disk

theorem step (on : env.dagMode = true) (faithful : Faithful env history) {event : Event}
    (received : ∀ arrival, event = .arrival arrival → arrival.carried.Received)
    (atHand : ParentsAtHand env history.node.chainman event) {later : History}
    (stepped : history.step env event = some later) : Faithful env later := by
  obtain ⟨node, nodeStep, rfl⟩ := Option.map_eq_some_iff.mp stepped
  cases event with
  | arrival arrival =>
    cases nodeStep
    exact faithful.arrival on (received arrival rfl) atHand
  | connectTip hash =>
    cases nodeStep
    exact faithful.of_sameHeaders (connectTip_keeps hash) (connectTip_sameHeaders hash)
  | setFailure hash failedValid failedChild =>
    cases nodeStep
    exact faithful.of_sameHeaders (setFailure_keeps hash failedValid failedChild)
      (setFailure_sameHeaders hash failedValid failedChild)
  | pruneBody hash =>
    cases nodeStep
    exact faithful.of_sameHeaders (pruneBody_keeps hash) (pruneBody_sameHeaders hash)
  | flush =>
    cases nodeStep
    exact faithful.flush
  | reload => exact faithful.reload nodeStep

theorem initial (genesisRoot : env.genesis.hashParentsRoot = 0) :
    Faithful env (.initial env) := by
  have genesis : (History.initial env).accepted env.hashGenesisBlock
      = some env.genesis.toCBlockHeader := by
    simp [History.initial]
  refine ⟨Sound.start fun _ => rfl, genesis, fun hash pindex found => ?_, ?_, ?_⟩
  · have eq := loadGenesisBlock_headers env hash
    rw [show (ChainstateManager.loadGenesisBlock env).blockIndex.lookup hash = some pindex
      from found, Option.map_some] at eq
    split at eq
    next same =>
      rwa [eq, same]
    · cases eq
  · intro hash pindex found
    cases found
  · intro hash header isAccepted
    change Function.update (fun _ => none) env.hashGenesisBlock _ hash = some header at isAccepted
    by_cases same : hash = env.hashGenesisBlock
    · subst same
      rw [Function.update_self] at isAccepted
      cases isAccepted
      refine ⟨.inr ⟨genesisRoot, env.genesis_parents⟩, ?_⟩
      rw [genesisRoot, env.genesis_parents]
      rfl
    · simp [Function.update_of_ne same] at isAccepted

end Faithful

/-- **Entries reproduce their headers** in every state of a run in which parents are at hand. -/
theorem headers_reproduced (env : ChainEnv) (on : env.dagMode = true)
    (genesisRoot : env.genesis.hashParentsRoot = 0) (events : List Event)
    (received : ∀ arrival, .arrival arrival ∈ events → arrival.carried.Received)
    (atHand : AllAtHand env events (.initial env)) (history : History)
    (reached : History.run env events (.initial env) = some history) :
    history.Reproduced env := by
  have run : ∀ events (start : History), Faithful env start →
      (∀ arrival, .arrival arrival ∈ events → arrival.carried.Received) →
      AllAtHand env events start.node → History.run env events start = some history →
      Faithful env history := by
    intro events
    induction events with
    | nil =>
      intro start faithful _ _ isHistory
      rwa [← Option.some.inj isHistory]
    | cons event rest ih =>
      intro start faithful received atHand isHistory
      obtain ⟨next, stepped, others⟩ := Option.bind_eq_some_iff.mp isHistory
      have nodeStep : start.node.step env event = some next.node := by
        obtain ⟨node, nodeStep, rfl⟩ := Option.map_eq_some_iff.mp stepped
        exact nodeStep
      refine ih next (faithful.step on ?_ atHand.1 stepped) ?_ (atHand.2 _ nodeStep) others
      all_goals grind
  exact (run events _ (.initial genesisRoot) received atHand reached).reproduced

/-! ## Examples -/

theorem allAtHand_arrival {env : ChainEnv} {node : NodeState} {arrival : Arrival}
    {rest : List Event} (first : ParentsAtHand env node.chainman (.arrival arrival))
    (others : AllAtHand env rest { node with chainman := arrive env node.chainman arrival }) :
    AllAtHand env (.arrival arrival :: rest) node := by
  refine And.intro first fun later stepped => ?_
  cases stepped
  exact others

theorem atHand_of_no_parents {env : ChainEnv} {chainman : ChainstateManager}
    {input : ChainstateManager.BodyInput} {block : CBlock} (none : block.hashParents = []) :
    ParentsAtHand env chainman (.arrival (.body input block)) := by
  refine And.intro (fun _ _ parent mem => ?_) fun pindex _ => ?_
  · rw [show (Arrival.body input block).carried.hashParents = [] from none] at mem
    cases mem
  · rw [none]
    exact Nat.zero_le _

def mergeRestarted : List Event :=
  [.arrival (requestedBody (nonceBlock 1 1 [])), .arrival (requestedBody (nonceBlock 2 1 [])),
    .arrival (announcedHeader (nonceBlock 3 2 [3])), .flush, .reload]

theorem headers_reproduced_restarted : ∃ history,
    History.run nonceChain mergeRestarted (.initial nonceChain) = some history ∧
      history.Reproduced nonceChain := by
  have reaches : (History.run nonceChain mergeRestarted (.initial nonceChain)).isSome := by
    decide +kernel
  obtain ⟨history, reached⟩ := Option.isSome_iff_exists.mp reaches
  refine ⟨history, reached, headers_reproduced nonceChain rfl rfl mergeRestarted ?_ ?_ history
    reached⟩
  · intro arrival mem
    simp only [mergeRestarted, List.mem_cons, Event.arrival.injEq, reduceCtorEq, List.not_mem_nil,
      or_false] at mem
    rcases mem with rfl | rfl | rfl
    · exact .inl rfl
    · exact .inl rfl
    · exact .inl rfl
  · refine allAtHand_arrival (atHand_of_no_parents rfl) (allAtHand_arrival
      (atHand_of_no_parents rfl) (allAtHand_arrival (fun _ _ => ?_) ?_))
    · exact List.forall_mem_singleton.mpr (by decide +kernel)
    · exact ⟨trivial, fun _ _ => ⟨trivial, fun _ _ => trivial⟩⟩

/-- **A parent that is unknown when its child's header is accepted is dropped**: the entry of
`4` lists no parent although its root commits to `3`, and a peer refuses the header. -/
theorem deferred_parent_dropped : ∃ history pindex,
    History.run nonceChain [.arrival (requestedBody (nonceBlock 1 1 [])),
        .arrival (announcedHeader (nonceBlock 3 2 [3]))] (.initial nonceChain) = some history ∧
      history.node.chainman.blockIndex.lookup 4 = some pindex ∧
      history.accepted 4 = some (nonceBlock 3 2 [3]).toCBlockHeader ∧
      pindex.getBlockHeader = { (nonceBlock 3 2 [3]).toCBlockHeader with hashParents := [] } ∧
      CBlockHeader.computeParentsRoot nonceHash pindex.getBlockHeader.hashParents
        ≠ pindex.getBlockHeader.hashParentsRoot ∧
      ((runArrivals nonceChain [requestedBody (nonceBlock 1 1 [])]).acceptBlockHeader nonceChain
        1743379300 true pindex.getBlockHeader).2
          = .error { result := .consensus, rejectReason := "bad-dag-parents-root" } := by
  have reached : (History.run nonceChain [.arrival (requestedBody (nonceBlock 1 1 [])),
      .arrival (announcedHeader (nonceBlock 3 2 [3]))] (.initial nonceChain)).map
        (fun history => ((history.node.chainman.blockIndex.lookup 4).map CBlockIndex.getBlockHeader,
          history.accepted 4))
      = some (some { (nonceBlock 3 2 [3]).toCBlockHeader with hashParents := [] },
          some (nonceBlock 3 2 [3]).toCBlockHeader) := by
    decide +kernel
  obtain ⟨history, isHistory, fields⟩ := Option.map_eq_some_iff.mp reached
  obtain ⟨entry, accepted⟩ := Prod.mk.inj fields
  obtain ⟨pindex, found, header⟩ := Option.map_eq_some_iff.mp entry
  refine ⟨history, pindex, isHistory, found, accepted, header, ?_, ?_⟩
  · rw [header]
    decide +kernel
  · rw [header]
    decide +kernel

end QuantBTC.Node
