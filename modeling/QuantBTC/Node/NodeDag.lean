/-
# Node.NodeDag -- the DAG of a node

Of a block index, scoring uses what the provider reads and which bodies are stored.  Seen
this way an arrival is at most two small steps: a header adds an entry, and a body resolves
the parents of one entry, and scores and stores it.
-/
import QuantBTC.Node.Body

namespace QuantBTC.Node

set_option autoImplicit false

open Primitives Dag

@[ext]
structure NodeDag where
  view : DagView
  stored : Uint256 → Bool

def dagParents (header : CBlockHeader) : List Uint256 :=
  if header.isDagBlock then header.hashParents else []

namespace NodeDag

def empty : NodeDag where
  view _ := none
  stored _ := false

def set (node : NodeDag) (hash : Uint256) (entry : DagEntry) : NodeDag :=
  { node with view := Function.update node.view hash (some entry) }

def store (node : NodeDag) (hash : Uint256) : NodeDag :=
  { node with stored := Function.update node.stored hash true }

section

variable {node : NodeDag} {hash other : Uint256} {entry : DagEntry}

@[simp] theorem view_set_self : (node.set hash entry).view hash = some entry :=
  Function.update_self ..

theorem view_set_of_ne (ne : other ≠ hash) : (node.set hash entry).view other = node.view other :=
  Function.update_of_ne ne ..

@[simp] theorem stored_store_self : (node.store hash).stored hash = true :=
  Function.update_self ..

theorem stored_store_of_ne (ne : other ≠ hash) : (node.store hash).stored other = node.stored other :=
  Function.update_of_ne ne ..

theorem set_self (found : node.view hash = some entry) : node.set hash entry = node := by
  rw [set, ← found, Function.update_eq_self]

end

def knownParents (env : ChainEnv) (node : NodeDag) (header : CBlockHeader) : List Uint256 :=
  (dagParents header).filter fun parent =>
    parent = env.hashOf header ∨ (node.view parent).isSome

def completeParents (header : CBlockHeader) (entry : DagEntry) : List Uint256 :=
  if entry.vDagParents.length < (dagParents header).length then dagParents header
  else entry.vDagParents

inductive HeaderStep (env : ChainEnv) (header : CBlockHeader) (node : NodeDag) : NodeDag → Prop where
  | skip : HeaderStep env header node node
  | add (prev : DagEntry) (unknown : node.view (env.hashOf header) = none)
      (found : node.view header.hashPrevBlock = some prev) :
      HeaderStep env header node (node.set (env.hashOf header)
        { pprev := some header.hashPrevBlock
          nHeight := prev.nHeight + 1
          nBits := header.nBits
          vDagParents := node.knownParents env header
          dagData := {} })

inductive BodyStep (env : ChainEnv) (header : CBlockHeader) (node : NodeDag) : NodeDag → Prop where
  | skip : BodyStep env header node node
  | resolve (entry : DagEntry) (vDagParents : List Uint256) (dag : env.dagMode = true)
      (found : node.view (env.hashOf header) = some entry)
      (pending : node.stored (env.hashOf header) = false)
      (partly : vDagParents.Sublist (dagParents header) ∨ vDagParents = entry.vDagParents) :
      BodyStep env header node (node.set (env.hashOf header) { entry with vDagParents })
  | score (entry : DagEntry) (dagData : GhostdagData) (dag : env.dagMode = true)
      (found : node.view (env.hashOf header) = some entry)
      (pending : node.stored (env.hashOf header) = false)
      (scored : ChainstateManager.scoreParents env
        (node.set (env.hashOf header)
          { entry with vDagParents := completeParents header entry }).view.provider
        (entry.pprev.toList ++ completeParents header entry) entry.dagData = .ok dagData) :
      BodyStep env header node
        ((node.set (env.hashOf header)
          { entry with vDagParents := completeParents header entry, dagData }).store
          (env.hashOf header))
  | plain (entry : DagEntry) (dag : env.dagMode = false)
      (found : node.view (env.hashOf header) = some entry)
      (pending : node.stored (env.hashOf header) = false) :
      BodyStep env header node (node.store (env.hashOf header))

section

variable {env : ChainEnv} {header : CBlockHeader} {node later : NodeDag}

theorem knownParents_sublist (env : ChainEnv) (node : NodeDag) (header : CBlockHeader) :
    (node.knownParents env header).Sublist (dagParents header) :=
  List.filter_sublist

theorem HeaderStep.stored_eq (step : HeaderStep env header node later) :
    later.stored = node.stored := by
  cases step with
  | skip => rfl
  | add => rfl

theorem HeaderStep.view_eq (step : HeaderStep env header node later) {hash : Uint256}
    {entry : DagEntry} (found : node.view hash = some entry) : later.view hash = some entry := by
  cases step with
  | skip => exact found
  | add prev unknown =>
    rw [view_set_of_ne, found]
    rintro rfl
    simp [unknown] at found

theorem BodyStep.view_eq (step : BodyStep env header node later) {hash : Uint256}
    (stored : node.stored hash = true) : later.view hash = node.view hash := by
  have other : node.stored (env.hashOf header) = false → hash ≠ env.hashOf header := by
    rintro pending rfl
    simp [stored] at pending
  cases step with
  | skip => rfl
  | resolve _ _ _ _ pending => exact view_set_of_ne (other pending)
  | score _ _ _ _ pending => exact view_set_of_ne (other pending)
  | plain => rfl

/-! ### An accepted block leaves no choice -/

variable {later' : NodeDag}

theorem HeaderStep.unique (step : HeaderStep env header node later)
    (step' : HeaderStep env header node later') (known : (later.view (env.hashOf header)).isSome)
    (known' : (later'.view (env.hashOf header)).isSome) : later' = later := by
  cases step with
  | skip =>
    cases step' with
    | skip => rfl
    | add prev unknown =>
      simp [unknown] at known
  | add prev unknown found =>
    cases step' with
    | skip =>
      rw [unknown] at known'
      cases known'
    | add prev' _ found' =>
      cases found'.symm.trans found
      rfl

theorem BodyStep.known (step : BodyStep env header node later)
    (pending : node.stored (env.hashOf header) = false)
    (stored : later.stored (env.hashOf header) = true) :
    (node.view (env.hashOf header)).isSome := by
  cases step with
  | skip => rw [pending] at stored; cases stored
  | resolve entry _ _ found => rw [found]; rfl
  | score entry _ _ found => rw [found]; rfl
  | plain entry _ found => rw [found]; rfl

theorem BodyStep.unique (step : BodyStep env header node later)
    (step' : BodyStep env header node later') (stored : later.stored (env.hashOf header) = true)
    (stored' : later'.stored (env.hashOf header) = true) : later' = later := by
  cases before : node.stored (env.hashOf header) with
  | true =>
    have same : ∀ final, BodyStep env header node final → final = node := by
      intro final step
      cases step with
      | skip => rfl
      | resolve _ _ _ _ pending => rw [before] at pending; cases pending
      | score _ _ _ _ pending => rw [before] at pending; cases pending
      | plain _ _ _ pending => rw [before] at pending; cases pending
    rw [same later step, same later' step']
  | false =>
    cases step with
    | skip => rw [before] at stored; cases stored
    | resolve => rw [set, before] at stored; cases stored
    | score entry dagData on found _ scored =>
      cases step' with
      | skip => rw [before] at stored'; cases stored'
      | resolve => rw [set, before] at stored'; cases stored'
      | score entry' dagData' _ found' _ scored' =>
        cases found'.symm.trans found
        cases scored'.symm.trans scored
        rfl
      | plain _ off => rw [on] at off; cases off
    | plain _ off =>
      cases step' with
      | skip => rw [before] at stored'; cases stored'
      | resolve => rw [set, before] at stored'; cases stored'
      | score _ _ on => rw [on] at off; cases off
      | plain => rfl

end

end NodeDag

/-! ## The node model takes these steps -/

namespace BlockMap

def nodeDag (index : BlockMap) : NodeDag where
  view := index.dagView
  stored hash := (index.lookup hash).any (·.nStatus.haveData)

variable {index later : BlockMap} {hash : Uint256} {pindex : CBlockIndex}

theorem SameCores.nodeDag_eq (same : index.SameCores later) : later.nodeDag = index.nodeDag := by
  have throughCore : ∀ (map : BlockMap) (hash : Uint256),
      map.nodeDag.view hash = ((map.lookup hash).map CBlockIndex.core).map CBlockIndex.dagEntry ∧
      map.nodeDag.stored hash
        = ((map.lookup hash).map CBlockIndex.core).any (·.nStatus.haveData) := by
    intro map hash
    simp only [nodeDag, dagView]
    cases map.lookup hash with
    | none => exact ⟨rfl, rfl⟩
    | some pindex => exact ⟨rfl, rfl⟩
  refine NodeDag.ext (funext fun hash => ?_) (funext fun hash => ?_)
  · rw [(throughCore later hash).1, (throughCore index hash).1, same hash]
  · rw [(throughCore later hash).2, (throughCore index hash).2, same hash]

theorem view_of_lookup (found : index.lookup hash = some pindex) :
    index.nodeDag.view hash = some pindex.dagEntry := by
  simp [nodeDag, dagView, found]

theorem stored_of_lookup (found : index.lookup hash = some pindex) :
    index.nodeDag.stored hash = pindex.nStatus.haveData := by
  simp [nodeDag, found]

theorem nodeDag_modify (found : index.lookup hash = some pindex)
    (change : CBlockIndex → CBlockIndex) :
    (index.modify hash change).nodeDag
      = { view := Function.update index.nodeDag.view hash (some (change pindex).dagEntry)
          stored := Function.update index.nodeDag.stored hash (change pindex).nStatus.haveData } := by
  refine NodeDag.ext (funext fun other => ?_) (funext fun other => ?_)
  · by_cases same : other = hash
    · subst same
      simp [nodeDag, dagView, lookup_modify_self, found]
    · simp [nodeDag, dagView, lookup_modify_of_ne same, Function.update_of_ne same]
  · grind [nodeDag, lookup_modify_self, lookup_modify_of_ne, Function.update_of_ne]

theorem nodeDag_modify_set (found : index.lookup hash = some pindex)
    (change : CBlockIndex → CBlockIndex)
    (keeps : (change pindex).nStatus.haveData = pindex.nStatus.haveData) :
    (index.modify hash change).nodeDag = index.nodeDag.set hash (change pindex).dagEntry := by
  rw [nodeDag_modify found, keeps, ← stored_of_lookup found, Function.update_eq_self]
  rfl

theorem nodeDag_modify_store (found : index.lookup hash = some pindex)
    (change : CBlockIndex → CBlockIndex) (stores : (change pindex).nStatus.haveData = true) :
    (index.modify hash change).nodeDag
      = (index.nodeDag.set hash (change pindex).dagEntry).store hash := by
  rw [nodeDag_modify found, stores]
  rfl

end BlockMap

namespace ChainstateManager

variable {env : ChainEnv} {chainman : ChainstateManager}

variable (index : BlockMap)

theorem newEntry_dagEntry (block : CBlockHeader) :
    (newEntry index block).dagEntry =
      { pprev := (index.lookup block.hashPrevBlock).map fun _ => block.hashPrevBlock
        nHeight := (index.lookup block.hashPrevBlock).elim 0 fun pprev => pprev.nHeight + 1
        nBits := block.nBits
        vDagParents :=
          if block.isDagBlock then
            block.hashParents.filter fun parent => (index.lookup parent).isSome
          else []
        dagData := {} } :=
  rfl

theorem acceptBlockHeader_step (now : Int) (minPowChecked : Bool) (block : CBlockHeader)
    (genesis : (chainman.blockIndex.lookup env.hashGenesisBlock).isSome) :
    NodeDag.HeaderStep env block chainman.blockIndex.nodeDag
      (chainman.acceptBlockHeader env now minPowChecked block).1.blockIndex.nodeDag := by
  rcases acceptBlockHeader_cases now minPowChecked block genesis with
    same | ⟨added, unknown, passed⟩
  · rw [same.nodeDag_eq]
    exact .skip
  · obtain ⟨prev, found⟩ := checkNewHeader_prev passed
    have other : block.hashPrevBlock ≠ env.hashOf block := by
      intro same
      rw [same, unknown] at found
      cases found
    have foundLater : (chainman.blockIndex.insert (env.hashOf block) (.ofHeader block)).lookup
        block.hashPrevBlock = some prev :=
      (AList.lookup_insert_ne other).trans found
    have set : (chainman.addToBlockIndex env block).blockIndex.nodeDag
        = chainman.blockIndex.nodeDag.set (env.hashOf block)
          (newEntry (chainman.blockIndex.insert (env.hashOf block) (.ofHeader block))
            block).dagEntry := by
      refine NodeDag.ext (funext fun hash => ?_) (funext fun hash => ?_)
      · by_cases same : hash = env.hashOf block
        · subst same
          simp [BlockMap.nodeDag, BlockMap.dagView, lookup_addToBlockIndex unknown, NodeDag.set]
        · simp [BlockMap.nodeDag, BlockMap.dagView, lookup_addToBlockIndex unknown, NodeDag.set, same]
      · by_cases same : hash = env.hashOf block
        · subst same
          simp only [BlockMap.nodeDag, lookup_addToBlockIndex unknown, NodeDag.set, if_pos, unknown]
          rfl
        · simp [BlockMap.nodeDag, lookup_addToBlockIndex unknown, NodeDag.set, same]
    have parents : (if block.isDagBlock then block.hashParents.filter fun parent =>
          ((chainman.blockIndex.insert (env.hashOf block) (.ofHeader block)).lookup parent).isSome
        else []) = chainman.blockIndex.nodeDag.knownParents env block := by
      rw [NodeDag.knownParents, dagParents]
      split
      · refine List.filter_congr fun parent _ => ?_
        by_cases same : parent = env.hashOf block
        · subst same
          simp
        · simp [same, BlockMap.nodeDag, BlockMap.dagView, AList.lookup_insert_ne same]
      · rfl
    rw [added, set, newEntry_dagEntry, foundLater, parents]
    refine .add prev.dagEntry ?_ (BlockMap.view_of_lookup found)
    simp [BlockMap.nodeDag, BlockMap.dagView, unknown]

/-! ### Bodies -/

theorem resolveDagParents_sublist (parents : List Uint256) :
    (resolveDagParents index parents).1.Sublist parents := by
  induction parents with
  | nil => exact List.Sublist.slnil
  | cons parent rest ih => grind [resolveDagParents, List.nil_sublist]

theorem resolveDagParents_complete {index : BlockMap} {parents resolved : List Uint256}
    (all : resolveDagParents index parents = (resolved, none)) : resolved = parents := by
  induction parents generalizing resolved with
  | nil => exact (congrArg Prod.fst all).symm
  | cons parent rest ih => grind [resolveDagParents, Prod.mk.inj]

theorem resolvedParents_partly (block : CBlock) (pindex : CBlockIndex) :
    (resolvedParents index block pindex).1.Sublist (dagParents block.toCBlockHeader) ∨
      (resolvedParents index block pindex).1 = pindex.vDagParents := by
  unfold resolvedParents
  split
  next again =>
    rw [Bool.and_eq_true] at again
    rw [dagParents, if_pos again.1]
    exact .inl (resolveDagParents_sublist ..)
  · exact .inr rfl

theorem resolvedParents_complete {index : BlockMap} {block : CBlock} {pindex : CBlockIndex}
    {vDagParents : List Uint256} (resolved : resolvedParents index block pindex = (vDagParents, none)) :
    vDagParents = NodeDag.completeParents block.toCBlockHeader pindex.dagEntry := by
  have entryParents : pindex.dagEntry.vDagParents = pindex.vDagParents := rfl
  rw [NodeDag.completeParents, dagParents, entryParents]
  unfold resolvedParents at resolved
  by_cases isDag : block.isDagBlock = true
  · rw [if_pos isDag]
    by_cases fewer : pindex.vDagParents.length < block.hashParents.length
    · rw [if_pos (by simp [isDag, fewer])] at resolved
      rw [if_pos fewer]
      exact resolveDagParents_complete resolved
    · grind
  · grind

theorem scoreParents_some {provider : IGhostdagBlockProvider} {parents : List Uint256}
    {dagData dagData' : GhostdagData} (nonempty : parents ≠ [])
    (scored : scoreParents env provider parents dagData = .ok dagData') :
    computeGhostdag provider env.params.ghostdagK parents = some dagData' := by
  grind [scoreParents, Except.ok.inj]

theorem acceptBody_step (input : BodyInput) (block : CBlock) {pindex : CBlockIndex}
    (found : chainman.blockIndex.lookup (env.hashOf block.toCBlockHeader) = some pindex) :
    NodeDag.BodyStep env block.toCBlockHeader chainman.blockIndex.nodeDag
      (chainman.acceptBody env input block (env.hashOf block.toCBlockHeader) pindex).1.blockIndex.nodeDag := by
  have inView := BlockMap.view_of_lookup found
  have inStored := BlockMap.stored_of_lookup found
  cases acceptBody_effect input block (env.hashOf block.toCBlockHeader) pindex with
  | same same =>
    rw [same.nodeDag_eq]
    exact .skip
  | unscored dag pending same =>
    rw [same.nodeDag_eq, BlockMap.nodeDag_modify_set found _ rfl]
    exact .resolve pindex.dagEntry _ dag inView (inStored.trans pending)
      (resolvedParents_partly ..)
  | scored dag pending vDagParents dagData resolved score same =>
    rw [same.nodeDag_eq, BlockMap.nodeDag_modify_store found _ rfl]
    obtain rfl := resolvedParents_complete resolved
    refine .score pindex.dagEntry dagData dag inView (inStored.trans pending) ?_
    have seen := BlockMap.nodeDag_modify_set found
      (CBlockIndex.setParents (NodeDag.completeParents block.toCBlockHeader pindex.dagEntry)) rfl
    change scoreParents env (BlockMap.nodeDag _).view.provider _ _ = _ at score
    rwa [seen] at score
  | plain dag pending same =>
    rw [same.nodeDag_eq, BlockMap.nodeDag_modify_store found _ rfl]
    have unchanged : chainman.blockIndex.nodeDag.set (env.hashOf block.toCBlockHeader)
        (pindex.setData block.vtx).dagEntry = chainman.blockIndex.nodeDag :=
      NodeDag.set_self inView
    rw [unchanged]
    exact .plain pindex.dagEntry dag inView (inStored.trans pending)

end ChainstateManager

theorem arrive_header {env : ChainEnv} {chainman : ChainstateManager}
    (genesis : (chainman.blockIndex.lookup env.hashGenesisBlock).isSome) (now : Int)
    (minPowChecked : Bool) (header : CBlockHeader) :
    NodeDag.HeaderStep env header chainman.blockIndex.nodeDag
      (arrive env chainman (.header now minPowChecked header)).blockIndex.nodeDag :=
  ChainstateManager.acceptBlockHeader_step now minPowChecked header genesis

theorem arrive_bodyStep (env : ChainEnv) (chainman : ChainstateManager)
    (input : ChainstateManager.BodyInput) (block : CBlock) :
    NodeDag.BodyStep env block.toCBlockHeader
      (chainman.acceptBlockHeader env input.now input.minPowChecked
        block.toCBlockHeader).1.blockIndex.nodeDag
      (arrive env chainman (.body input block)).blockIndex.nodeDag := by
  simp only [arrive, ChainstateManager.acceptBlock]
  rcases result : chainman.acceptBlockHeader env input.now input.minPowChecked block.toCBlockHeader
    with ⟨accepted, invalid | hash⟩
  · exact .skip
  · obtain rfl : hash = env.hashOf block.toCBlockHeader :=
      ChainstateManager.acceptBlockHeader_ok (congrArg Prod.snd result)
    dsimp only
    split
    · exact .skip
    next pindex found => exact ChainstateManager.acceptBody_step input block found

theorem arrive_body {env : ChainEnv} {chainman : ChainstateManager}
    (genesis : (chainman.blockIndex.lookup env.hashGenesisBlock).isSome)
    (input : ChainstateManager.BodyInput) (block : CBlock) :
    ∃ middle, NodeDag.HeaderStep env block.toCBlockHeader chainman.blockIndex.nodeDag middle ∧
      NodeDag.BodyStep env block.toCBlockHeader middle
        (arrive env chainman (.body input block)).blockIndex.nodeDag :=
  ⟨_, ChainstateManager.acceptBlockHeader_step input.now input.minPowChecked block.toCBlockHeader
    genesis, arrive_bodyStep env chainman input block⟩

/-! ## Runs -/

def genesisEntry (env : ChainEnv) : DagEntry where
  pprev := none
  nHeight := 0
  nBits := env.genesis.nBits
  vDagParents := []
  dagData := {}

theorem newEntry_genesis (env : ChainEnv) :
    (ChainstateManager.newEntry ((∅ : BlockMap).insert env.hashGenesisBlock
      (.ofHeader env.genesis.toCBlockHeader)) env.genesis.toCBlockHeader).dagEntry
      = genesisEntry env := by
  have noPrev : ((∅ : BlockMap).insert env.hashGenesisBlock
      (.ofHeader env.genesis.toCBlockHeader)).lookup env.genesis.hashPrevBlock = none := by
    rw [env.genesis_prev]
    exact AList.lookup_insert_ne (env.hash_ne_zero _).symm
  rw [ChainstateManager.newEntry_dagEntry, noPrev, env.genesis_parents]
  simp [genesisEntry]

theorem genesisNode_view {env : ChainEnv} {hash : Uint256} {entry : DagEntry}
    (found : (NodeDag.empty.set env.hashGenesisBlock (genesisEntry env)).view hash = some entry) :
    hash = env.hashGenesisBlock ∧ entry = genesisEntry env := by
  by_cases same : hash = env.hashGenesisBlock
  · rw [same, NodeDag.view_set_self] at found
    exact ⟨same, (Option.some.inj found).symm⟩
  · rw [NodeDag.view_set_of_ne same] at found
    cases found

theorem loadGenesisBlock_nodeDag (env : ChainEnv) :
    (ChainstateManager.loadGenesisBlock env).blockIndex.nodeDag =
      (NodeDag.empty.set env.hashGenesisBlock (genesisEntry env)).store env.hashGenesisBlock := by
  have added : ∀ hash, (ChainstateManager.addToBlockIndex env {}
      env.genesis.toCBlockHeader).blockIndex.lookup hash = _ :=
    ChainstateManager.lookup_addToBlockIndex rfl
  have found := (added env.hashGenesisBlock).trans (if_pos rfl)
  have stored := ChainstateManager.receivedBlockTransactions_sameCores
    (ChainstateManager.addToBlockIndex env {} env.genesis.toCBlockHeader) env.genesis
    env.hashGenesisBlock none
  have others : ∀ hash, hash ≠ env.hashGenesisBlock → (ChainstateManager.addToBlockIndex env {}
      env.genesis.toCBlockHeader).blockIndex.lookup hash = none :=
    fun hash other => (added hash).trans (if_neg other)
  rw [ChainstateManager.loadGenesisBlock, stored.nodeDag_eq,
    BlockMap.nodeDag_modify_store found _ rfl]
  refine congrArg (NodeDag.store · _) (NodeDag.ext (funext fun hash => ?_) (funext fun hash => ?_))
  · by_cases same : hash = env.hashGenesisBlock
    · subst same
      rw [NodeDag.view_set_self, NodeDag.view_set_self, ← newEntry_genesis]
      rfl
    · rw [NodeDag.view_set_of_ne same, NodeDag.view_set_of_ne same]
      simp [BlockMap.nodeDag, BlockMap.dagView, others hash same, NodeDag.empty]
  · by_cases same : hash = env.hashGenesisBlock
    · subst same
      exact BlockMap.stored_of_lookup found
    · simp [BlockMap.nodeDag, others hash same, NodeDag.empty, NodeDag.set]

def BodiesMeet (env : ChainEnv) (Meets : NodeDag → CBlockHeader → Prop) :
    ChainstateManager → List Arrival → Prop
  | _, [] => True
  | chainman, .header now minPowChecked header :: rest =>
    BodiesMeet env Meets (arrive env chainman (.header now minPowChecked header)) rest
  | chainman, .body input block :: rest =>
    Meets chainman.blockIndex.nodeDag block.toCBlockHeader ∧
      BodiesMeet env Meets (arrive env chainman (.body input block)) rest

variable {arrivals : List Arrival}

theorem BodiesMeet.mono {env : ChainEnv} {Meets Meets' : NodeDag → CBlockHeader → Prop}
    (weaker : ∀ node header, Meets node header → Meets' node header) {chainman : ChainstateManager}
    (meets : BodiesMeet env Meets chainman arrivals) : BodiesMeet env Meets' chainman arrivals := by
  induction arrivals generalizing chainman with
  | nil => trivial
  | cons arrival rest ih =>
    cases arrival with
    | header => exact ih meets
    | body => exact ⟨weaker _ _ meets.1, ih meets.2⟩

theorem bodiesMeet_true (env : ChainEnv) (chainman : ChainstateManager) (arrivals : List Arrival) :
    BodiesMeet env (fun _ _ => True) chainman arrivals := by
  induction arrivals generalizing chainman with
  | nil => trivial
  | cons arrival rest ih =>
    cases arrival with
    | header => exact ih _
    | body => exact ⟨trivial, ih _⟩

theorem run_rule {env : ChainEnv} {Meets : NodeDag → CBlockHeader → Prop} (Inv : NodeDag → Prop)
    {chainman : ChainstateManager}
    (known : ∀ node, Inv node → (node.view env.hashGenesisBlock).isSome) (headerStep : ∀ arrival ∈
      arrivals, ∀ node later, Inv node → NodeDag.HeaderStep env arrival.carried node later → Inv
      later) (bodyStep : ∀ arrival ∈ arrivals, ∀ before node later, Inv before → Meets before
      arrival.carried → NodeDag.HeaderStep env arrival.carried before node → Inv node →
      NodeDag.BodyStep env arrival.carried node later → Inv later)
    (start : Inv chainman.blockIndex.nodeDag) (meets : BodiesMeet env Meets chainman arrivals) :
    Inv (arrivals.foldl (arrive env) chainman).blockIndex.nodeDag := by
  induction arrivals generalizing chainman with
  | nil => exact start
  | cons arrival rest ih =>
    rw [List.forall_mem_cons] at headerStep bodyStep
    have genesis : (chainman.blockIndex.lookup env.hashGenesisBlock).isSome := by
      simpa [BlockMap.nodeDag, BlockMap.dagView] using known _ start
    cases arrival with
    | header now minPowChecked header =>
      refine ih headerStep.2 bodyStep.2 ?_ meets
      exact headerStep.1 _ _ start (arrive_header genesis now minPowChecked header)
    | body input block =>
      refine ih headerStep.2 bodyStep.2 ?_ meets.2
      obtain ⟨middle, first, second⟩ := arrive_body genesis input block
      exact bodyStep.1 _ middle _ start meets.1 first (headerStep.1 _ _ start first) second

end QuantBTC.Node
