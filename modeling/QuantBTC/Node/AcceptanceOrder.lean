/-
# Node.AcceptanceOrder -- does acceptance depend on the order of arrival?

A `Delivery` is a node with the bodies it was sent and the blocks whose failure flags chain
activation set or cleared.  Its activities are arrivals, the connection of a tip and changes
of failure flags.
-/
import QuantBTC.Node.Persistence
import QuantBTC.Node.Settled
import QuantBTC.Theory.Runs

namespace QuantBTC.Node

set_option autoImplicit false

open Primitives Dag Theory.ParentGraph Theory.Runs ChainstateManager

/-! ## Deliveries -/

inductive Activity where
  | arrival (arrival : Arrival)
  | connectTip (hash : Uint256)
  | setFailure (hash : Uint256) (failedValid failedChild : Bool)

structure Delivery where
  chainman : ChainstateManager
  received : List CBlock := []
  marked : List Uint256 := []

namespace Delivery

def step (env : ChainEnv) (node : Delivery) : Activity → Delivery
  | .arrival arrival =>
    { node with
      chainman := arrive env node.chainman arrival
      received :=
        match arrival with
        | .header .. => node.received
        | .body _ block => node.received.insert block }
  | .connectTip hash => { node with chainman := node.chainman.connectTip hash }
  | .setFailure hash failedValid failedChild =>
    { node with
      chainman := node.chainman.setFailure hash failedValid failedChild
      marked := hash :: node.marked }

def initial (env : ChainEnv) : Delivery where
  chainman := loadGenesisBlock env

def run (env : ChainEnv) (activities : List Activity) : Delivery :=
  activities.foldl (step env) (initial env)

def acceptedHeader (env : ChainEnv) (node : Delivery) (block : CBlock) : Bool :=
  (node.chainman.blockIndex.lookup (env.hashOf block.toCBlockHeader)).isSome

def acceptedBody (env : ChainEnv) (node : Delivery) (block : CBlock) : Bool :=
  (node.chainman.blockIndex.lookup (env.hashOf block.toCBlockHeader)).any (·.nStatus.haveData)

def SameVerdicts (env : ChainEnv) (node other : Delivery) : Prop :=
  ∀ block ∈ node.received, block ∈ other.received →
    node.acceptedHeader env block = other.acceptedHeader env block ∧
      node.acceptedBody env block = other.acceptedBody env block

structure Timely (env : ChainEnv) (blocks : List CBlock) (node : Delivery) (block : CBlock) :
    Prop where
  member : block ∈ blocks
  behind : ParentsIn env blocks node.received block
  unmarked : env.hashOf block.toCBlockHeader ∉ node.marked
  pastUnmarked : ∀ hash ∈ node.marked, hash ∉ pastOf env blocks block

theorem Timely.of_none_marked {env : ChainEnv} {blocks : List CBlock} {node : Delivery} {block : CBlock}
    (member : block ∈ blocks) (behind : ParentsIn env blocks node.received block)
    (none : node.marked = []) : Timely env blocks node block where
  member := member
  behind := behind
  unmarked := by
    rw [none]
    exact List.not_mem_nil
  pastUnmarked := by
    rw [none]
    exact fun _ mem => nomatch mem

def Meets (env : ChainEnv) (blocks : List CBlock) (node : Delivery) : Activity → Prop
  | .arrival (.header now minPowChecked header) =>
    minPowChecked = true ∧ (header.nTime.toNat : Int) ≤ now + maxFutureBlockTime ∧
      ∃ block, block.toCBlockHeader = header ∧ Timely env blocks node block
  | .arrival (.body input block) =>
    input.minPowChecked = true ∧ (block.nTime.toNat : Int) ≤ input.now + maxFutureBlockTime ∧
      input.fRequested = true ∧ Timely env blocks node block
  | .connectTip _ => True
  | .setFailure .. => True

end Delivery

/-! ## The node tracks what is settled -/

open Delivery

structure Tracks (env : ChainEnv) (blocks : List CBlock) (node : Delivery) : Prop where
  ordered : InOrder env blocks node.received
  known : ∀ hash, (node.chainman.blockIndex.lookup hash).isSome → hash = env.hashGenesisBlock ∨
    ∃ block ∈ blocks, env.hashOf block.toCBlockHeader = hash
  same : ∀ hash, hash ∉ node.marked →
    (hash = env.hashGenesisBlock ∨ ∃ block ∈ node.received, env.hashOf block.toCBlockHeader = hash) →
    (node.chainman.blockIndex.lookup hash).map CBlockIndex.lasting
      = ((settled env node.received).lookup hash).map CBlockIndex.lasting
  pending : ∀ block ∈ blocks, block ∉ node.received →
    env.hashOf block.toCBlockHeader ≠ env.hashGenesisBlock →
    env.hashOf block.toCBlockHeader ∉ node.marked →
    node.chainman.blockIndex.lookup (env.hashOf block.toCBlockHeader) = none ∨
      ParentsIn env blocks node.received block ∧
        (node.chainman.blockIndex.lookup (env.hashOf block.toCBlockHeader)).map CBlockIndex.lasting
          = (headerVerdict env (settled env node.received) block.toCBlockHeader).map
              CBlockIndex.lasting
  stored : ∀ block ∈ node.received,
    (node.chainman.blockIndex.lookup (env.hashOf block.toCBlockHeader)).map (·.nStatus.haveData)
      = ((settled env node.received).lookup (env.hashOf block.toCBlockHeader)).map
          (·.nStatus.haveData)
  failed : ∀ hash ∈ node.chainman.failedBlocks, hash ∈ node.marked
  unlinked : ∀ pair ∈ node.chainman.blocksUnlinked, pair.1 = env.hashGenesisBlock ∨
    ∃ block ∈ node.received, env.hashOf block.toCBlockHeader = pair.1

theorem connectTip_keeps_lasting (chainman : ChainstateManager) (hash : Uint256) :
    (∀ other, ((chainman.connectTip hash).blockIndex.lookup other).map CBlockIndex.lasting
        = (chainman.blockIndex.lookup other).map CBlockIndex.lasting) ∧
      (chainman.connectTip hash).failedBlocks = chainman.failedBlocks ∧
      (chainman.connectTip hash).blocksUnlinked = chainman.blocksUnlinked := by
  rw [ChainstateManager.connectTip]
  split
  · exact ⟨fun _ => rfl, rfl, rfl⟩
  next pindexNew found =>
    have raised : ∀ other, ((if pindexNew.isValid .scripts then chainman
          else chainman.modifyDirty hash (·.raiseValidity .scripts)).blockIndex.lookup other).map
            CBlockIndex.lasting
        = (chainman.blockIndex.lookup other).map CBlockIndex.lasting := by
      intro other
      split
      · rfl
      · exact BlockMap.map_lookup_modify _ fun _ => CBlockIndex.lasting_raiseValidity _ _
    have fields : (if pindexNew.isValid .scripts then chainman
          else chainman.modifyDirty hash (·.raiseValidity .scripts)).failedBlocks
            = chainman.failedBlocks ∧
        (if pindexNew.isValid .scripts then chainman
          else chainman.modifyDirty hash (·.raiseValidity .scripts)).blocksUnlinked
            = chainman.blocksUnlinked := by
      split <;> exact ⟨rfl, rfl⟩
    dsimp only
    split
    · split
      · exact ⟨raised, fields⟩
      · refine ⟨fun other => ?_, fields⟩
        refine (BlockMap.map_lookup_modify _ fun pindex => ?_).trans (raised other)
        rw [CBlockIndex.pruneMergeset]
        split <;> rfl
    · exact ⟨raised, fields⟩

namespace Tracks

variable {env : ChainEnv} {blocks : List CBlock} {node : Delivery} {block : CBlock}

theorem initial (env : ChainEnv) (blocks : List CBlock) : Tracks env blocks (.initial env) where
  ordered := .nil
  known hash isKnown := by grind [Delivery.initial, genesis_alone]
  same _ _ _ := rfl
  pending block _ _ notGenesis _ := .inl (genesis_alone env notGenesis)
  stored _ mem := nomatch mem
  failed _ mem := nomatch mem
  unlinked _ mem := nomatch mem

theorem change (tracks : Tracks env blocks node) {later : ChainstateManager} {marked : List Uint256}
    (grown : node.marked ⊆ marked)
    (same : ∀ hash, hash ∉ marked → (later.blockIndex.lookup hash).map CBlockIndex.lasting
      = (node.chainman.blockIndex.lookup hash).map CBlockIndex.lasting)
    (data : ∀ hash, (later.blockIndex.lookup hash).map (·.nStatus.haveData)
      = (node.chainman.blockIndex.lookup hash).map (·.nStatus.haveData))
    (failed : ∀ hash ∈ later.failedBlocks, hash ∈ marked)
    (unlinked : ∀ pair ∈ later.blocksUnlinked, pair.1 = env.hashGenesisBlock ∨
      ∃ block ∈ node.received, env.hashOf block.toCBlockHeader = pair.1) :
    Tracks env blocks { node with chainman := later, marked } where
  ordered := tracks.ordered
  known hash isKnown := by
    refine tracks.known hash ?_
    rwa [← Option.isSome_map, data hash, Option.isSome_map] at isKnown
  same hash unmarked judged :=
    (same hash unmarked).trans (tracks.same hash (fun mem => unmarked (grown mem)) judged)
  pending block member new notGenesis unmarked := by
    rcases tracks.pending block member new notGenesis fun mem => unmarked (grown mem) with
      unknown | ⟨behind, announced⟩
    all_goals grind [Option.map_none, Option.map_eq_none_iff]
  stored block mem := (data _).trans (tracks.stored block mem)
  failed := failed
  unlinked := unlinked

/-! ### Chain activation -/

theorem connectTip (tracks : Tracks env blocks node) (hash : Uint256) :
    Tracks env blocks (node.step env (.connectTip hash)) := by
  obtain ⟨lasting, failedBlocks, blocksUnlinked⟩ := connectTip_keeps_lasting node.chainman hash
  refine tracks.change (List.Subset.refl _) (fun other _ => lasting other) (fun other => ?_) ?_ ?_
  · exact CBlockIndex.map_lasting_congr (lasting other) _ fun _ => rfl
  · rw [failedBlocks]
    exact tracks.failed
  · rw [blocksUnlinked]
    exact tracks.unlinked

theorem setFailure (tracks : Tracks env blocks node) (hash : Uint256) (failedValid failedChild : Bool) :
    Tracks env blocks (node.step env (.setFailure hash failedValid failedChild)) := by
  refine tracks.change (List.subset_cons_self ..) (fun other unmarked => ?_) (fun other => ?_)
    (fun other isFailed => ?_) tracks.unlinked
  · have ne : other ≠ hash := fun same => unmarked (same ▸ List.mem_cons_self)
    exact congrArg (Option.map _) (BlockMap.lookup_modify_of_ne ne)
  · exact BlockMap.map_lookup_modify _ fun _ => rfl
  · rw [ChainstateManager.setFailure] at isFailed
    dsimp only at isFailed
    split at isFailed
    · rcases List.mem_insert_iff.mp isFailed with rfl | old
      · exact List.mem_cons_self
      · exact List.mem_cons_of_mem _ (tracks.failed other old)
    · exact List.mem_cons_of_mem _ (tracks.failed other (List.mem_of_mem_erase isFailed))

/-! ### Arrivals -/

section Arrivals

variable (differ : HashesDiffer env blocks) (unchecked : Unchecked env blocks)
  (tracks : Tracks env blocks node) (timely : Timely env blocks node block)

include unchecked tracks in
theorem noCheckpoint : AgreeOn.NoCheckpoint env node.chainman.blockIndex := by
  intro enabled hash mem
  by_contra isKnown
  obtain ⟨notGenesis, foreign⟩ := unchecked enabled hash mem
  rcases tracks.known hash (Option.isSome_iff_ne_none.mpr isKnown) with same | ⟨block, member, same⟩
  · exact notGenesis same
  · exact foreign block member same

include differ tracks timely

theorem agree : AgreeOn (pastOf env blocks block) (settled env node.received)
    node.chainman.blockIndex := by
  refine agreeOn_past differ tracks.ordered fun hash inPast => ?_
  have unmarked : hash ∉ node.marked := fun mem => timely.pastUnmarked hash mem inPast
  have here := pastOf_subset differ tracks.ordered timely.member timely.behind inPast
  by_cases judged : hash = env.hashGenesisBlock ∨
      ∃ block ∈ node.received, env.hashOf block.toCBlockHeader = hash
  · exact tracks.same hash unmarked judged
  · rw [not_or] at judged
    have new : ∀ block ∈ blocks, env.hashOf block.toCBlockHeader ≠ hash := fun block member same =>
      judged.2 ⟨block, here block member same, same⟩
    have unknown : node.chainman.blockIndex.lookup hash = none := by
      by_contra isKnown
      rcases tracks.known hash (Option.isSome_iff_ne_none.mpr isKnown) with same | ⟨block, member, same⟩
      · exact judged.1 same
      · exact new block member same
    rw [unknown, settled_unknown judged.1 fun block mem => new block (tracks.ordered.subset mem)]

theorem own : env.hashOf block.toCBlockHeader ∉ pastOf env blocks block := by
  by_cases mem : block ∈ node.received
  · exact tracks.ordered.not_mem_own_past differ mem
  · exact not_mem_pastOf differ tracks.ordered timely.member timely.behind timely.member mem

omit differ in
theorem pastNotFailed : ∀ failed ∈ node.chainman.failedBlocks, failed ∉ pastOf env blocks block :=
  fun failed isFailed => timely.pastUnmarked failed (tracks.failed failed isFailed)

variable {later : ChainstateManager}

theorem unlinked_later
    (only : OnlyAt (pastOf env blocks block) (env.hashOf block.toCBlockHeader) node.chainman later)
    :
    ∀ pair ∈ later.blocksUnlinked, pair.1 = env.hashGenesisBlock ∨
      ∃ block ∈ node.received, env.hashOf block.toCBlockHeader = pair.1 := by
  intro pair mem
  rcases only.unlinked pair mem with old | ⟨_, inPast, isKnown⟩
  · exact tracks.unlinked pair old
  · rcases tracks.known pair.1 isKnown with same | ⟨prev, member, same⟩
    · exact .inl same
    · exact .inr ⟨prev, pastOf_subset differ tracks.ordered timely.member timely.behind inPast prev
        member same, same⟩

omit differ in
theorem known_later
    (only : OnlyAt (pastOf env blocks block) (env.hashOf block.toCBlockHeader) node.chainman later)
    (hash : Uint256) (isKnown : (later.blockIndex.lookup hash).isSome) :
    hash = env.hashGenesisBlock ∨ ∃ block ∈ blocks, env.hashOf block.toCBlockHeader = hash := by
  by_cases same : hash = env.hashOf block.toCBlockHeader
  · exact .inr ⟨block, timely.member, same.symm⟩
  · rw [only.others hash same] at isKnown
    exact tracks.known hash isKnown

theorem unchanged
    (only : OnlyAt (pastOf env blocks block) (env.hashOf block.toCBlockHeader) node.chainman later)
      (self : (later.blockIndex.lookup (env.hashOf block.toCBlockHeader)).map CBlockIndex.lasting =
      (node.chainman.blockIndex.lookup (env.hashOf block.toCBlockHeader)).map CBlockIndex.lasting) :
    Tracks env blocks { node with chainman := later } := by
  have lasting : ∀ hash, (later.blockIndex.lookup hash).map CBlockIndex.lasting
      = (node.chainman.blockIndex.lookup hash).map CBlockIndex.lasting := by
    intro hash
    by_cases same : hash = env.hashOf block.toCBlockHeader
    · rw [same, self]
    · rw [only.others hash same]
  refine tracks.change (List.Subset.refl _) (fun hash _ => lasting hash)
    (fun hash => CBlockIndex.map_lasting_congr (lasting hash) _ fun _ => rfl) ?_
    (tracks.unlinked_later differ timely only)
  rw [only.failedBlocks]
  exact tracks.failed

theorem announce (new : block ∉ node.received)
    (notGenesis : env.hashOf block.toCBlockHeader ≠ env.hashGenesisBlock)
    (only : OnlyAt (pastOf env blocks block) (env.hashOf block.toCBlockHeader) node.chainman later)
      (self : later.blockIndex.lookup (env.hashOf block.toCBlockHeader) =
      (node.chainman.blockIndex.lookup (env.hashOf block.toCBlockHeader)).or (headerVerdict env
      (settled env node.received) block.toCBlockHeader)) :
    Tracks env blocks { node with chainman := later } where
  ordered := tracks.ordered
  known := tracks.known_later timely only
  same hash unmarked judged := by
    have ne : hash ≠ env.hashOf block.toCBlockHeader := by
      rintro rfl
      rcases judged with isGenesis | ⟨other, mem, isOther⟩
      · exact notGenesis isGenesis
      · exact new (differ other (tracks.ordered.subset mem) block timely.member isOther ▸ mem)
    rw [only.others hash ne]
    exact tracks.same hash unmarked judged
  pending other member otherNew otherNotGenesis unmarked := by
    by_cases same : env.hashOf other.toCBlockHeader = env.hashOf block.toCBlockHeader
    · obtain rfl := differ other member block timely.member same
      right
      refine ⟨timely.behind, ?_⟩
      rw [self]
      rcases tracks.pending other member otherNew otherNotGenesis unmarked with
        unknown | ⟨_, announced⟩
      all_goals grind
    · rw [only.others _ same]
      exact tracks.pending other member otherNew otherNotGenesis unmarked
  stored other mem := by
    have ne : env.hashOf other.toCBlockHeader ≠ env.hashOf block.toCBlockHeader := fun same =>
      new (differ other (tracks.ordered.subset mem) block timely.member same ▸ mem)
    rw [only.others _ ne]
    exact tracks.stored other mem
  failed := by
    rw [only.failedBlocks]
    exact tracks.failed
  unlinked := tracks.unlinked_later differ timely only

omit differ in
theorem genesis_stored (isGenesis : env.hashOf block.toCBlockHeader = env.hashGenesisBlock) :
    ∃ pindex, node.chainman.blockIndex.lookup (env.hashOf block.toCBlockHeader) = some pindex ∧
      pindex.nStatus.haveData = true := by
  obtain ⟨genesis, found, stored, _⟩ := genesis_lookup env
  have same := tracks.same _ timely.unmarked (.inl isGenesis)
  rw [isGenesis, settled_genesis, found] at same
  obtain ⟨pindex, isEntry, sameEntry⟩ := Option.map_eq_some_iff.mp same
  refine ⟨pindex, isGenesis ▸ isEntry, ?_⟩
  rw [CBlockIndex.lasting_congr sameEntry (·.nStatus.haveData) fun _ => rfl, stored]

include unchecked

theorem receive (new : block ∉ node.received)
    (only : OnlyAt (pastOf env blocks block) (env.hashOf block.toCBlockHeader) node.chainman later)
      (self : (later.blockIndex.lookup (env.hashOf block.toCBlockHeader)).map CBlockIndex.lasting =
      ((settled env (block :: node.received)).lookup (env.hashOf block.toCBlockHeader)).map
      CBlockIndex.lasting) :
    Tracks env blocks { node with chainman := later, received := block :: node.received } where
  ordered := .cons timely.member new timely.behind tracks.ordered
  known := tracks.known_later timely only
  same hash unmarked judged := by
    by_cases same : hash = env.hashOf block.toCBlockHeader
    · rw [same, self]
    · rw [only.others hash same, settled, lookup_settle_of_ne same]
      refine tracks.same hash unmarked (judged.imp_right ?_)
      grind
  pending other member otherNew notGenesis unmarked := by
    rw [List.mem_cons, not_or] at otherNew
    have ne : env.hashOf other.toCBlockHeader ≠ env.hashOf block.toCBlockHeader := fun same =>
      otherNew.1 (differ other member block timely.member same)
    rw [only.others _ ne]
    refine (tracks.pending other member otherNew.2 notGenesis unmarked).imp_right ?_
    rintro ⟨behind, announced⟩
    have own := not_mem_pastOf differ tracks.ordered member behind member otherNew.2
    rw [(verdict_settled_cons differ unchecked tracks.ordered member behind own timely.member new).2]
    exact ⟨behind.mono (List.subset_cons_self ..), announced⟩
  stored other mem := by
    by_cases same : env.hashOf other.toCBlockHeader = env.hashOf block.toCBlockHeader
    · rw [same]
      exact CBlockIndex.map_lasting_congr self _ fun _ => rfl
    · rw [only.others _ same, settled, lookup_settle_of_ne same]
      rcases List.mem_cons.mp mem with rfl | old
      · exact absurd rfl same
      · exact tracks.stored other old
  failed := by
    rw [only.failedBlocks]
    exact tracks.failed
  unlinked pair mem := (tracks.unlinked_later differ timely only pair mem).imp_right
    fun ⟨prev, isReceived, same⟩ => ⟨prev, List.mem_cons_of_mem _ isReceived, same⟩

theorem received_same (mem : block ∈ node.received)
    (notGenesis : env.hashOf block.toCBlockHeader ≠ env.hashGenesisBlock) :
    (node.chainman.blockIndex.lookup (env.hashOf block.toCBlockHeader)).map CBlockIndex.lasting
      = (verdict env (settled env node.received) block).map CBlockIndex.lasting :=
  (tracks.same _ timely.unmarked (.inr ⟨block, mem, rfl⟩)).trans
    (settled_lookup differ unchecked tracks.ordered mem notGenesis)

/-- **A timely header** keeps track. -/
theorem header {now : Int} (early : (block.nTime.toNat : Int) ≤ now + maxFutureBlockTime) :
    Tracks env blocks
      { node with chainman := (node.chainman.acceptBlockHeader env now true block.toCBlockHeader).1 } := by
  by_cases isGenesis : env.hashOf block.toCBlockHeader = env.hashGenesisBlock
  · obtain ⟨pindex, found, _⟩ := tracks.genesis_stored timely isGenesis
    rwa [acceptBlockHeader_genesis isGenesis (Option.isSome_of_mem found)]
  · obtain ⟨later, result, isLater, only, self, _⟩ := acceptBlockHeader_verdict
      (tracks.agree differ timely) (settled_noCheckpoint unchecked tracks.ordered.subset)
      (tracks.noCheckpoint unchecked) (tracks.pastNotFailed timely)
      (listed_mem_pastOf differ timely.member) (tracks.own differ timely) isGenesis early
    rw [isLater]
    by_cases mem : block ∈ node.received
    · refine tracks.unchanged differ timely only ?_
      rw [self, or_headerVerdict (tracks.received_same differ unchecked timely mem isGenesis)]
    · exact tracks.announce differ timely mem isGenesis only self

/-- **A timely body** keeps track. -/
theorem body {input : BodyInput} (minPowChecked : input.minPowChecked = true)
    (early : (block.nTime.toNat : Int) ≤ input.now + maxFutureBlockTime)
    (requested : input.fRequested = true) :
    Tracks env blocks
      { node with
        chainman := (node.chainman.acceptBlock env input block).1
        received := node.received.insert block } := by
  by_cases isGenesis : env.hashOf block.toCBlockHeader = env.hashGenesisBlock
  · obtain ⟨pindex, found, stored⟩ := tracks.genesis_stored timely isGenesis
    rw [acceptBlock_genesis isGenesis found stored minPowChecked]
    by_cases mem : block ∈ node.received
    · rwa [List.insert_of_mem mem]
    · rw [List.insert_of_not_mem mem]
      refine tracks.receive differ unchecked timely mem (.refl _) ?_
      rw [tracks.same _ timely.unmarked (.inl isGenesis), isGenesis, settled_genesis, settled_genesis]
  · have agree := tracks.agree differ timely
    have listed := listed_mem_pastOf differ timely.member
    have verdicts := acceptBlock_verdict agree (settled_noCheckpoint unchecked tracks.ordered.subset)
      (tracks.noCheckpoint unchecked) (tracks.pastNotFailed timely) listed (tracks.own differ timely)
      isGenesis early minPowChecked requested
    by_cases mem : block ∈ node.received
    · -- stored and failed blocks are left alone, a refused one is refused again
      have same := tracks.received_same differ unchecked timely mem isGenesis
      obtain ⟨only, self⟩ := verdicts (fun pindex found => judged_entry listed (found ▸ same)) (by
        intro pindex found unmarked pending stored
        rw [or_headerVerdict same] at found
        have again := bodyVerdict_settled agree listed (found ▸ same) unmarked pending
        rw [CBlockIndex.lasting_congr again (·.nStatus.haveData) fun _ => rfl, pending] at stored
        cases stored)
      rw [List.insert_of_mem mem]
      exact tracks.unchanged differ timely only (self.trans (settledEntry_again agree listed same))
    · have announced := tracks.pending block timely.member mem isGenesis timely.unmarked
      have unknown : (settled env node.received).lookup (env.hashOf block.toCBlockHeader) = none :=
        settled_unknown isGenesis fun other isReceived same =>
          mem (differ other (tracks.ordered.subset isReceived) block timely.member same ▸ isReceived)
      obtain ⟨only, self⟩ := verdicts (by
        intro pindex found
        rw [found] at announced
        exact announced_entry listed (announced.resolve_left (Option.some_ne_none _)).2) (by
        intro pindex _ _ _ _ pair isWaiting same
        rcases tracks.unlinked pair isWaiting with genesis | ⟨prev, isReceived, isPrev⟩
        · exact isGenesis (same.symm.trans genesis)
        · exact mem (differ prev (tracks.ordered.subset isReceived) block timely.member
            (isPrev.trans same) ▸ isReceived))
      rw [List.insert_of_not_mem mem]
      refine tracks.receive differ unchecked timely mem only ?_
      rw [self, settled, lookup_settle_self unknown]
      exact settledEntry_new agree listed (announced.imp_right And.right)

end Arrivals

theorem step (differ : HashesDiffer env blocks) (unchecked : Unchecked env blocks)
    (tracks : Tracks env blocks node) (activity : Activity) (meets : node.Meets env blocks activity) :
    Tracks env blocks (node.step env activity) := by
  cases activity with
  | arrival arrival =>
    cases arrival with
    | header now minPowChecked header =>
      obtain ⟨rfl, early, block, rfl, timely⟩ := meets
      exact tracks.header differ unchecked timely early
    | body input block =>
      obtain ⟨minPowChecked, early, requested, timely⟩ := meets
      exact tracks.body differ unchecked timely minPowChecked early requested
  | connectTip hash => exact tracks.connectTip hash
  | setFailure hash failedValid failedChild => exact tracks.setFailure hash failedValid failedChild

theorem run (differ : HashesDiffer env blocks) (unchecked : Unchecked env blocks)
    {activities : List Activity}
    (meets : StepsMeet (Delivery.step env) (Delivery.Meets env blocks) (.initial env) activities) :
    Tracks env blocks (Delivery.run env activities) :=
  meets.invariant (Tracks env blocks)
    (fun _ activity tracks meets => tracks.step differ unchecked activity meets)
    (Tracks.initial env blocks)

theorem sameVerdicts (differ : HashesDiffer env blocks) (unchecked : Unchecked env blocks)
    {other : Delivery} (tracks : Tracks env blocks node) (tracks' : Tracks env blocks other) :
    SameVerdicts env node other := by
  intro block mem mem'
  have settledSame := settled_agree differ unchecked tracks.ordered tracks'.ordered mem mem'
  have data : (node.chainman.blockIndex.lookup (env.hashOf block.toCBlockHeader)).map
        (·.nStatus.haveData)
      = (other.chainman.blockIndex.lookup (env.hashOf block.toCBlockHeader)).map
        (·.nStatus.haveData) := by
    rw [tracks.stored block mem, tracks'.stored block mem',
      CBlockIndex.map_lasting_congr settledSame _ fun _ => rfl]
  constructor
  · rw [acceptedHeader, acceptedHeader, ← Option.isSome_map, data, Option.isSome_map]
  · have through : ∀ entry : Option CBlockIndex, entry.any (·.nStatus.haveData)
        = (entry.map (·.nStatus.haveData)).any id := by
      intro entry
      cases entry <;> rfl
    rw [acceptedBody, acceptedBody, through, data, ← through]

end Tracks

/-! ## Acceptance and order -/

/-- **Acceptance does not depend on the order** of runs in which every header and body arrives
after the bodies of its parents, and after no change of the failure flags in its past. -/
theorem verdicts_agree (env : ChainEnv) (blocks : List CBlock) (differ : HashesDiffer env blocks)
    (unchecked : Unchecked env blocks) (activities others : List Activity)
    (meets : StepsMeet (Delivery.step env) (Delivery.Meets env blocks) (.initial env) activities)
    (meets' : StepsMeet (Delivery.step env) (Delivery.Meets env blocks) (.initial env) others) :
    SameVerdicts env (Delivery.run env activities) (Delivery.run env others) :=
  (Tracks.run differ unchecked meets).sameVerdicts differ unchecked (Tracks.run differ unchecked meets')

def mergedSiblings : List CBlock := [nonceBlock 1 1 [], nonceBlock 2 1 [], nonceBlock 3 2 [3]]

def firstChildFirst : List Activity :=
  [.arrival (announcedHeader (nonceBlock 1 1 [])), .arrival (requestedBody (nonceBlock 1 1 [])),
    .connectTip 2, .arrival (requestedBody (nonceBlock 2 1 [])),
    .arrival (requestedBody (nonceBlock 3 2 [3]))]

def secondChildFirst : List Activity :=
  [.arrival (requestedBody (nonceBlock 2 1 [])), .connectTip 3,
    .arrival (requestedBody (nonceBlock 1 1 [])), .arrival (requestedBody (nonceBlock 3 2 [3])),
    .arrival (requestedBody (nonceBlock 3 2 [3])), .setFailure 2 true false]

theorem verdicts_agree_siblings :
    SameVerdicts nonceChain (Delivery.run nonceChain firstChildFirst)
        (Delivery.run nonceChain secondChildFirst) ∧
      (Delivery.run nonceChain firstChildFirst).acceptedBody nonceChain (nonceBlock 3 2 [3]) = true := by
  have differ : HashesDiffer nonceChain mergedSiblings := by decide +kernel
  have unchecked : Unchecked nonceChain mergedSiblings := fun _ _ mem => nomatch mem
  refine ⟨verdicts_agree nonceChain mergedSiblings differ unchecked _ _ ?_ ?_, by decide +kernel⟩
  · refine ⟨⟨rfl, by decide, _, rfl, .of_none_marked (by decide) (by decide +kernel) rfl⟩,
      ⟨rfl, by decide, rfl, .of_none_marked (by decide) (by decide +kernel) rfl⟩, trivial,
      ⟨rfl, by decide, rfl, .of_none_marked (by decide) (by decide +kernel) rfl⟩,
      ⟨rfl, by decide, rfl, .of_none_marked (by decide) (by decide +kernel) rfl⟩, trivial⟩
  · refine ⟨⟨rfl, by decide, rfl, .of_none_marked (by decide) (by decide +kernel) rfl⟩, trivial,
      ⟨rfl, by decide, rfl, .of_none_marked (by decide) (by decide +kernel) rfl⟩,
      ⟨rfl, by decide, rfl, .of_none_marked (by decide) (by decide +kernel) rfl⟩,
      ⟨rfl, by decide, rfl, .of_none_marked (by decide) (by decide +kernel) rfl⟩, trivial, trivial⟩

/-! ### A header before its parent -/

def headerBeforeParent : List Activity :=
  [.arrival (announcedHeader (nonceBlock 1 1 [])), .arrival (requestedBody (nonceBlock 1 1 [])),
    .arrival (announcedHeader (nonceBlock 3 2 [3])),
    .arrival (announcedHeader (nonceBlock 2 2 [])), .arrival (requestedBody (nonceBlock 2 2 [])),
    .arrival (requestedBody (nonceBlock 3 2 [3]))]

def parentBeforeHeader : List Activity :=
  [.arrival (announcedHeader (nonceBlock 1 1 [])), .arrival (requestedBody (nonceBlock 1 1 [])),
    .arrival (announcedHeader (nonceBlock 2 2 [])), .arrival (requestedBody (nonceBlock 2 2 [])),
    .arrival (announcedHeader (nonceBlock 3 2 [3])),
    .arrival (requestedBody (nonceBlock 3 2 [3]))]

/-- **Acceptance depends on the order.**  Both nodes have all headers and bodies; one accepts
block 4 and the other one refuses it. -/
theorem deferred_parent_accepted :
    (∀ block ∈ [nonceBlock 1 1 [], nonceBlock 2 2 [], nonceBlock 3 2 [3]],
      block ∈ (Delivery.run nonceChain headerBeforeParent).received ∧
        block ∈ (Delivery.run nonceChain parentBeforeHeader).received) ∧
      (Delivery.run nonceChain headerBeforeParent).acceptedBody nonceChain (nonceBlock 3 2 [3])
        = true ∧
      (Delivery.run nonceChain parentBeforeHeader).acceptedHeader nonceChain (nonceBlock 3 2 [3])
        = false ∧
      ¬ SameVerdicts nonceChain (Delivery.run nonceChain headerBeforeParent)
        (Delivery.run nonceChain parentBeforeHeader) := by
  have sent : ∀ block ∈ [nonceBlock 1 1 [], nonceBlock 2 2 [], nonceBlock 3 2 [3]],
      block ∈ (Delivery.run nonceChain headerBeforeParent).received ∧
        block ∈ (Delivery.run nonceChain parentBeforeHeader).received := by
    decide +kernel
  have verdicts : (Delivery.run nonceChain headerBeforeParent).acceptedBody nonceChain
        (nonceBlock 3 2 [3]) = true ∧
      (Delivery.run nonceChain headerBeforeParent).acceptedHeader nonceChain (nonceBlock 3 2 [3])
        = true ∧
      (Delivery.run nonceChain parentBeforeHeader).acceptedHeader nonceChain (nonceBlock 3 2 [3])
        = false := by
    decide +kernel
  obtain ⟨accepted, announced, refused⟩ := verdicts
  refine ⟨sent, accepted, refused, fun same => ?_⟩
  have both := sent (nonceBlock 3 2 [3]) (by decide)
  have equal := (same _ both.1 both.2).1
  simp [announced, refused] at equal

end QuantBTC.Node
