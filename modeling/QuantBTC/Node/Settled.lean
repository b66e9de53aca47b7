/-
# Node.Settled -- the index that a list of blocks settles

A list of blocks in which every block comes after its parents has one outcome: each block is
judged in the index of those before it.  `settled` is that index, the newest block of the list
first.  It says what a node is for that receives the blocks in this order, with nothing in
between.
-/
import QuantBTC.Node.OwnEntry

namespace QuantBTC.Node

set_option autoImplicit false

open Primitives Dag Theory.ParentGraph ChainstateManager

variable {env : ChainEnv} {blocks : List CBlock}

/-! ## Blocks and their past -/

def listedIn (env : ChainEnv) (blocks : List CBlock) (hash : Uint256) : List Uint256 :=
  match blocks.find? fun block => env.hashOf block.toCBlockHeader = hash with
  | none => []
  | some block => listedParents block.toCBlockHeader

def HashesDiffer (env : ChainEnv) (blocks : List CBlock) : Prop :=
  ∀ block ∈ blocks, ∀ other ∈ blocks,
    env.hashOf block.toCBlockHeader = env.hashOf other.toCBlockHeader → block = other

instance : Decidable (HashesDiffer env blocks) :=
  decidable_of_iff (blocks.all fun block => blocks.all fun other =>
    decide (env.hashOf block.toCBlockHeader = env.hashOf other.toCBlockHeader → block = other))
    (by simp only [List.all_eq_true, decide_eq_true_eq, HashesDiffer])

def ParentsIn (env : ChainEnv) (blocks received : List CBlock) (block : CBlock) : Prop :=
  ∀ parent ∈ listedParents block.toCBlockHeader, ∀ other ∈ blocks,
    env.hashOf other.toCBlockHeader = parent → other ∈ received

instance (received : List CBlock) (block : CBlock) :
    Decidable (ParentsIn env blocks received block) :=
  decidable_of_iff ((listedParents block.toCBlockHeader).all fun parent => blocks.all fun other =>
    decide (env.hashOf other.toCBlockHeader = parent → other ∈ received))
    (by simp only [List.all_eq_true, decide_eq_true_eq, ParentsIn])

inductive InOrder (env : ChainEnv) (blocks : List CBlock) : List CBlock → Prop where
  | nil : InOrder env blocks []
  | cons {block : CBlock} {rest : List CBlock} (member : block ∈ blocks) (new : block ∉ rest)
      (behind : ParentsIn env blocks rest block) (ordered : InOrder env blocks rest) :
      InOrder env blocks (block :: rest)

def ReceivedOrForeign (env : ChainEnv) (blocks received : List CBlock) : Set Uint256 :=
  {hash | ∀ block ∈ blocks, env.hashOf block.toCBlockHeader = hash → block ∈ received}

def pastOf (env : ChainEnv) (blocks : List CBlock) (block : CBlock) : Set Uint256 :=
  Past (listedIn env blocks) (env.hashOf block.toCBlockHeader)

theorem listedIn_eq (differ : HashesDiffer env blocks) {block : CBlock} (mem : block ∈ blocks) :
    listedIn env blocks (env.hashOf block.toCBlockHeader) = listedParents block.toCBlockHeader := by
  rw [listedIn]
  split
  · grind
  next found isFound =>
    have same := List.find?_some isFound
    rw [differ found (List.mem_of_find?_eq_some isFound) block mem (of_decide_eq_true same)]

variable {hash : Uint256}

theorem listedIn_foreign (foreign : ∀ block ∈ blocks, env.hashOf block.toCBlockHeader ≠ hash) :
    listedIn env blocks hash = [] := by
  have missing : blocks.find? (fun block => env.hashOf block.toCBlockHeader = hash) = none :=
    List.find?_eq_none.mpr fun block mem => by simpa using foreign block mem
  rw [listedIn, missing]

theorem ParentsIn.mono {received later : List CBlock} {block : CBlock}
    (subset : received ⊆ later) (behind : ParentsIn env blocks received block) :
    ParentsIn env blocks later block :=
  fun parent isParent other mem same => subset (behind parent isParent other mem same)

theorem InOrder.subset {received : List CBlock} (ordered : InOrder env blocks received) :
    received ⊆ blocks := by
  induction ordered with
  | nil => exact List.nil_subset _
  | cons member _ _ _ ih => exact List.cons_subset.mpr ⟨member, ih⟩

theorem InOrder.behind {received : List CBlock} (ordered : InOrder env blocks received)
    {block : CBlock} (mem : block ∈ received) :
    ∃ rest, InOrder env blocks rest ∧ rest ⊆ received ∧ block ∉ rest ∧
      ParentsIn env blocks rest block := by
  induction ordered with
  | nil => cases mem
  | @cons newest rest _ new behind ordered ih => grind

section Past

variable {received : List CBlock} {block : CBlock} (differ : HashesDiffer env blocks)
  (ordered : InOrder env blocks received)
include differ ordered

theorem closed_received : Closed (listedIn env blocks) (ReceivedOrForeign env blocks received) := by
  intro hash mem parent isParent other otherMem isOther
  by_cases foreign : ∀ block ∈ blocks, env.hashOf block.toCBlockHeader ≠ hash
  · simp [listedIn_foreign foreign] at isParent
  · simp only [not_forall, not_not] at foreign
    obtain ⟨block, blockMem, rfl⟩ := foreign
    obtain ⟨rest, _, subset, _, behind⟩ := ordered.behind (mem block blockMem rfl)
    rw [listedIn_eq differ blockMem] at isParent
    exact subset (behind parent isParent other otherMem isOther)

theorem pastOf_subset (member : block ∈ blocks) (behind : ParentsIn env blocks received block) :
    pastOf env blocks block ⊆ ReceivedOrForeign env blocks received := by
  intro hash reached
  obtain ⟨parent, isParent, here⟩ := mem_past_iff.mp reached
  rw [listedIn_eq differ member] at isParent
  have parentMem : parent ∈ ReceivedOrForeign env blocks received := fun other mem same =>
    behind parent isParent other mem same
  rcases here with rfl | further
  · exact parentMem
  · exact (closed_received differ ordered).past_subset parentMem further

theorem not_mem_pastOf (member : block ∈ blocks) (behind : ParentsIn env blocks received block)
    {later : CBlock} (laterMem : later ∈ blocks) (new : later ∉ received) :
    env.hashOf later.toCBlockHeader ∉ pastOf env blocks block := fun reached =>
  new (pastOf_subset differ ordered member behind reached later laterMem rfl)

end Past

theorem InOrder.not_mem_own_past (differ : HashesDiffer env blocks) {received : List CBlock}
    (ordered : InOrder env blocks received) {block : CBlock} (mem : block ∈ received) :
    env.hashOf block.toCBlockHeader ∉ pastOf env blocks block := by
  obtain ⟨rest, restOrdered, _, new, behind⟩ := ordered.behind mem
  have member := ordered.subset mem
  exact not_mem_pastOf differ restOrdered member behind member new

theorem listed_mem_pastOf (differ : HashesDiffer env blocks) {block : CBlock} (mem : block ∈ blocks)
    (parent : Uint256) (isParent : parent ∈ listedParents block.toCBlockHeader) :
    parent ∈ pastOf env blocks block :=
  parent_mem_past (by rwa [listedIn_eq differ mem])

/-! ## The settled index -/

def verdict (env : ChainEnv) (index : BlockMap) (block : CBlock) : Option CBlockIndex :=
  (headerVerdict env index block.toCBlockHeader).map (bodyVerdict env index block)

def settle (env : ChainEnv) (index : BlockMap) (block : CBlock) : BlockMap :=
  if (index.lookup (env.hashOf block.toCBlockHeader)).isSome then index
  else
    match verdict env index block with
    | none => index
    | some pindex => index.insert (env.hashOf block.toCBlockHeader) pindex

def settled (env : ChainEnv) : List CBlock → BlockMap
  | [] => (loadGenesisBlock env).blockIndex
  | block :: rest => settle env (settled env rest) block

section Settle

variable {index : BlockMap} {block : CBlock}

theorem lookup_settle_of_ne {hash : Uint256} (ne : hash ≠ env.hashOf block.toCBlockHeader) :
    (settle env index block).lookup hash = index.lookup hash := by
  rw [settle]
  split
  · rfl
  · split
    · rfl
    · exact AList.lookup_insert_ne ne

theorem lookup_settle_self (unknown : index.lookup (env.hashOf block.toCBlockHeader) = none) :
    (settle env index block).lookup (env.hashOf block.toCBlockHeader) = verdict env index block := by
  rw [settle, if_neg (by rw [unknown]; exact Bool.false_ne_true)]
  grind [AList.lookup_insert]

theorem settle_of_known (known : (index.lookup (env.hashOf block.toCBlockHeader)).isSome) :
    settle env index block = index :=
  if_pos known

variable {pindex : CBlockIndex}

theorem verdict_eq_some (accepted : verdict env index block = some pindex) :
    ∃ header, headerVerdict env index block.toCBlockHeader = some header ∧
      bodyVerdict env index block header = pindex :=
  Option.map_eq_some_iff.mp accepted

theorem headerVerdict_eq_some {header : CBlockHeader}
    (accepted : headerVerdict env index header = some pindex) :
    newEntry (index.insert (env.hashOf header) (.ofHeader header)) header = pindex := by
  grind [headerVerdict, Option.some.inj]

theorem headerVerdict_within {past : Set Uint256} {header : CBlockHeader}
    (listed : ∀ parent ∈ listedParents header, parent ∈ past)
    (accepted : headerVerdict env index header = some pindex) : pindex.Within past :=
  headerVerdict_eq_some accepted ▸ newEntry_within listed _

theorem verdict_within {past : Set Uint256}
    (listed : ∀ parent ∈ listedParents block.toCBlockHeader, parent ∈ past)
    (accepted : verdict env index block = some pindex) : pindex.Within past := by
  obtain ⟨header, isHeader, rfl⟩ := verdict_eq_some accepted
  exact bodyVerdict_within (fun parent mem => listed parent (List.mem_cons_of_mem _ mem))
    (headerVerdict_within listed isHeader)

theorem AgreeOn.verdict_eq {past : Set Uint256} {other : BlockMap} (agree : AgreeOn past index other)
    (unchecked : NoCheckpoint env index) (unchecked' : NoCheckpoint env other)
    (outside : env.hashOf block.toCBlockHeader ∉ past)
    (listed : ∀ parent ∈ listedParents block.toCBlockHeader, parent ∈ past) :
    (verdict env other block).map CBlockIndex.lasting
      = (verdict env index block).map CBlockIndex.lasting := by
  rw [verdict, verdict, agree.headerVerdict_eq unchecked unchecked' outside listed, Option.map_map,
    Option.map_map]
  refine Option.map_congr fun pindex accepted => ?_
  exact agree.bodyVerdict_eq rfl (fun parent mem => listed parent (List.mem_cons_of_mem _ mem))
    (headerVerdict_within listed accepted)

theorem announced_entry {past : Set Uint256}
    (listed : ∀ parent ∈ listedParents block.toCBlockHeader, parent ∈ past) (same : (some
      pindex).map CBlockIndex.lasting = (headerVerdict env index block.toCBlockHeader).map
      CBlockIndex.lasting) :
    pindex.Within past ∧ (pindex.nStatus.haveData = false → pindex.mChainTxCount = 0) := by
  obtain ⟨header, accepted, sameEntry⟩ := Option.map_eq_some_iff.mp same.symm
  refine ⟨.of_lasting sameEntry.symm (headerVerdict_within listed accepted), fun _ => ?_⟩
  rw [← CBlockIndex.lasting_congr sameEntry CBlockIndex.mChainTxCount fun _ => rfl,
    ← headerVerdict_eq_some accepted]
  exact (newEntry_fresh _ _).2.2

theorem judged_entry {past : Set Uint256}
    (listed : ∀ parent ∈ listedParents block.toCBlockHeader, parent ∈ past) (same : (some
      pindex).map CBlockIndex.lasting = (verdict env index block).map CBlockIndex.lasting) :
    pindex.Within past ∧ (pindex.nStatus.haveData = false → pindex.mChainTxCount = 0) := by
  obtain ⟨judged, accepted, sameEntry⟩ := Option.map_eq_some_iff.mp same.symm
  refine ⟨.of_lasting sameEntry.symm (verdict_within listed accepted), fun pending => ?_⟩
  obtain ⟨header, isHeader, rfl⟩ := verdict_eq_some accepted
  rw [← CBlockIndex.lasting_congr sameEntry (·.nStatus.haveData) fun _ => rfl] at pending
  rw [← CBlockIndex.lasting_congr sameEntry CBlockIndex.mChainTxCount fun _ => rfl,
    bodyVerdict_count pending, ← headerVerdict_eq_some isHeader]
  exact (newEntry_fresh _ _).2.2

/-! ### Blocks that arrive again -/

theorem or_headerVerdict {entry : Option CBlockIndex}
    (same : entry.map CBlockIndex.lasting = (verdict env index block).map CBlockIndex.lasting) :
    entry.or (headerVerdict env index block.toCBlockHeader) = entry := by
  cases entry with
  | none => grind [Option.map_none, Option.map_eq_none_iff, verdict, Option.none_or]
  | some pindex => rw [Option.some_or]

section Again

variable {past : Set Uint256} {other : BlockMap} {entry : Option CBlockIndex}
  (agree : AgreeOn past index other)
  (listed : ∀ parent ∈ listedParents block.toCBlockHeader, parent ∈ past)
include agree listed

theorem bodyVerdict_settled {pindex : CBlockIndex}
    (same : (some pindex).map CBlockIndex.lasting
      = (verdict env index block).map CBlockIndex.lasting)
    (unmarked : pindex.nStatus.failed = false) (pending : pindex.nStatus.haveData = false) :
    (bodyVerdict env index block pindex).lasting = pindex.lasting := by
  obtain ⟨judged, isJudged, sameJudged⟩ := Option.map_eq_some_iff.mp same.symm
  obtain ⟨header, _, rfl⟩ := verdict_eq_some isJudged
  have again := bodyVerdict_again
    ((CBlockIndex.lasting_congr sameJudged (·.nStatus.haveData) fun _ => rfl).trans pending)
    ((CBlockIndex.lasting_congr sameJudged (·.nStatus.failed) fun _ => rfl).trans unmarked)
  rw [agree.self.bodyVerdict_eq sameJudged.symm
    (fun parent mem => listed parent (List.mem_cons_of_mem _ mem)) (verdict_within listed isJudged),
    again, sameJudged]

theorem settledEntry_again
    (same : entry.map CBlockIndex.lasting = (verdict env index block).map CBlockIndex.lasting) :
    (entry.or (headerVerdict env index block.toCBlockHeader)).map
        (fun pindex => (settledEntry env index block pindex).lasting)
      = entry.map CBlockIndex.lasting := by
  rw [or_headerVerdict same]
  cases entry with
  | none => rfl
  | some pindex =>
    rw [Option.map_some, Option.map_some, settledEntry]
    split
    · rfl
    next processed =>
      rw [Bool.or_eq_true, not_or, Bool.not_eq_true, Bool.not_eq_true] at processed
      rw [bodyVerdict_settled agree listed same processed.1 processed.2]

theorem settledEntry_new
    (same : entry = none ∨ entry.map CBlockIndex.lasting
      = (headerVerdict env index block.toCBlockHeader).map CBlockIndex.lasting) :
    (entry.or (headerVerdict env index block.toCBlockHeader)).map
        (fun pindex => (settledEntry env index block pindex).lasting)
      = (verdict env index block).map CBlockIndex.lasting := by
  have fresh : ∀ pindex, headerVerdict env index block.toCBlockHeader = some pindex →
      pindex.nStatus.failed = false ∧ pindex.nStatus.haveData = false := fun pindex accepted =>
    headerVerdict_eq_some accepted ▸ ⟨(newEntry_fresh _ _).1, (newEntry_fresh _ _).2.1⟩
  have judged : ∀ pindex pindex' : CBlockIndex,
      headerVerdict env index block.toCBlockHeader = some pindex →
      pindex'.lasting = pindex.lasting →
      (settledEntry env index block pindex').lasting = (bodyVerdict env index block pindex).lasting := by
    intro pindex pindex' accepted sameEntry
    rw [settledEntry, CBlockIndex.lasting_congr sameEntry (·.nStatus.failed) fun _ => rfl,
      CBlockIndex.lasting_congr sameEntry (·.nStatus.haveData) fun _ => rfl, (fresh _ accepted).1,
      (fresh _ accepted).2, Bool.or_false, if_neg Bool.false_ne_true]
    exact agree.self.bodyVerdict_eq sameEntry
      (fun parent mem => listed parent (List.mem_cons_of_mem _ mem))
      (headerVerdict_within listed accepted)
  rw [verdict, Option.map_map]
  cases entry with
  | none => grind [Option.none_or, Option.map_congr]
  | some pindex' =>
    have sameLasting := same.resolve_left (Option.some_ne_none pindex')
    obtain ⟨pindex, accepted, sameEntry⟩ := Option.map_eq_some_iff.mp sameLasting.symm
    rw [accepted, Option.some_or, Option.map_some, Option.map_some,
      judged pindex pindex' accepted sameEntry.symm]
    rfl

end Again

end Settle

/-! ## What it holds -/

theorem genesis_lookup (env : ChainEnv) :
    ∃ pindex, (loadGenesisBlock env).blockIndex.lookup env.hashGenesisBlock = some pindex ∧
      pindex.nStatus.haveData = true ∧ ∀ past, pindex.Within past := by
  have start := loadGenesisBlock_nodeDag env
  have view : (loadGenesisBlock env).blockIndex.dagView env.hashGenesisBlock = some (genesisEntry env) := by
    refine (congrArg (·.view env.hashGenesisBlock) start).trans ?_
    exact NodeDag.view_set_self
  obtain ⟨pindex, found, isEntry⟩ := Option.map_eq_some_iff.mp view
  have stored := congrArg (·.stored env.hashGenesisBlock) start
  rw [BlockMap.stored_of_lookup found, NodeDag.stored_store_self] at stored
  refine ⟨pindex, found, stored, fun past => ⟨?_, .inl ?_⟩⟩
  · have none : pindex.dagEntry.parents = [] := by
      rw [isEntry]
      rfl
    intro parent mem
    rw [show pindex.allParents = [] from none] at mem
    cases mem
  · exact congrArg (·.dagData.selectedParent) isEntry

theorem genesis_alone (env : ChainEnv) (ne : hash ≠ env.hashGenesisBlock) :
    (loadGenesisBlock env).blockIndex.lookup hash = none := by
  have view : (loadGenesisBlock env).blockIndex.dagView hash = none := by
    refine (congrArg (·.view hash) (loadGenesisBlock_nodeDag env)).trans ?_
    exact NodeDag.view_set_of_ne ne
  exact Option.map_eq_none_iff.mp view

theorem settled_genesis (received : List CBlock) :
    (settled env received).lookup env.hashGenesisBlock
      = (loadGenesisBlock env).blockIndex.lookup env.hashGenesisBlock := by
  induction received with
  | nil => rfl
  | cons block rest ih =>
    rw [settled]
    by_cases same : env.hashGenesisBlock = env.hashOf block.toCBlockHeader
    · obtain ⟨pindex, found, _⟩ := genesis_lookup env
      rw [settle_of_known (by rw [← same, ih, found]; rfl), ih]
    · rw [lookup_settle_of_ne same, ih]

theorem settled_unknown {received : List CBlock} (ne : hash ≠ env.hashGenesisBlock)
    (new : ∀ block ∈ received, env.hashOf block.toCBlockHeader ≠ hash) :
    (settled env received).lookup hash = none := by
  induction received with
  | nil => exact genesis_alone env ne
  | cons block rest ih =>
    rw [List.forall_mem_cons] at new
    rw [settled, lookup_settle_of_ne new.1.symm, ih new.2]

def Unchecked (env : ChainEnv) (blocks : List CBlock) : Prop :=
  env.checkpointsEnabled = true → ∀ hash ∈ env.checkpoints, hash ≠ env.hashGenesisBlock ∧
    ∀ block ∈ blocks, env.hashOf block.toCBlockHeader ≠ hash

theorem settled_noCheckpoint (unchecked : Unchecked env blocks) {received : List CBlock}
    (subset : received ⊆ blocks) : AgreeOn.NoCheckpoint env (settled env received) :=
  fun enabled hash mem => settled_unknown (unchecked enabled hash mem).1 fun block isReceived =>
    (unchecked enabled hash mem).2 block (subset isReceived)

section Order

variable (differ : HashesDiffer env blocks)
include differ

variable {received : List CBlock}

theorem settled_within (ordered : InOrder env blocks received) {hash : Uint256}
    {pindex : CBlockIndex} (found : (settled env received).lookup hash = some pindex) :
    pindex.Within {parent | parent ∈ listedIn env blocks hash} := by
  by_cases isGenesis : hash = env.hashGenesisBlock
  · obtain ⟨genesis, isFirst, _, within⟩ := genesis_lookup env
    grind [settled_genesis, Option.some.inj]
  · induction ordered with
    | nil =>
      simp [settled, genesis_alone env isGenesis] at found
    | @cons block rest member new _ ordered ih =>
      by_cases same : hash = env.hashOf block.toCBlockHeader
      · subst same
        have unknown : (settled env rest).lookup (env.hashOf block.toCBlockHeader) = none := by
          refine settled_unknown isGenesis fun other mem same => new ?_
          rwa [← differ other (ordered.subset mem) block member same]
        grind [settled, lookup_settle_self, verdict_within, Set.mem_ofPred_eq, listedIn_eq]
      · rw [settled, lookup_settle_of_ne same] at found
        exact ih found

variable {block : CBlock}

theorem agreeOn_past (ordered : InOrder env blocks received) {other : BlockMap} (same : ∀ hash ∈
      pastOf env blocks block, (other.lookup hash).map CBlockIndex.lasting = ((settled env
      received).lookup hash).map CBlockIndex.lasting) :
    AgreeOn (pastOf env blocks block) (settled env received) other where
  same := same
  within hash mem pindex found := by
    refine (settled_within differ ordered found).mono fun parent isParent => ?_
    exact past_trans mem (parent_mem_past isParent)

variable (unchecked : Unchecked env blocks)
include unchecked

theorem verdict_settled_cons (ordered : InOrder env blocks received) {later : CBlock}
    (member : block ∈ blocks) (behind : ParentsIn env blocks received block)
    (own : env.hashOf block.toCBlockHeader ∉ pastOf env blocks block) (laterMem : later ∈ blocks)
    (new : later ∉ received) :
    (verdict env (settled env (later :: received)) block).map CBlockIndex.lasting
        = (verdict env (settled env received) block).map CBlockIndex.lasting ∧
      headerVerdict env (settled env (later :: received)) block.toCBlockHeader
        = headerVerdict env (settled env received) block.toCBlockHeader := by
  have agree : AgreeOn (pastOf env blocks block) (settled env received)
      (settled env (later :: received)) := by
    grind [agreeOn_past, not_mem_pastOf, settled, lookup_settle_of_ne]
  have none := settled_noCheckpoint unchecked ordered.subset
  have none' := settled_noCheckpoint unchecked (List.cons_subset.mpr ⟨laterMem, ordered.subset⟩)
  exact ⟨agree.verdict_eq none none' own (listed_mem_pastOf differ member),
    agree.headerVerdict_eq none none' own (listed_mem_pastOf differ member)⟩

theorem settled_lookup (ordered : InOrder env blocks received) (mem : block ∈ received)
    (notGenesis : env.hashOf block.toCBlockHeader ≠ env.hashGenesisBlock) :
    ((settled env received).lookup (env.hashOf block.toCBlockHeader)).map CBlockIndex.lasting
      = (verdict env (settled env received) block).map CBlockIndex.lasting := by
  have own := ordered.not_mem_own_past differ mem
  induction ordered with
  | nil => cases mem
  | @cons newest rest member new behind ordered ih =>
    rcases List.mem_cons.mp mem with rfl | old
    · have unknown : (settled env rest).lookup (env.hashOf block.toCBlockHeader) = none := by
        refine settled_unknown notGenesis fun other mem same => new ?_
        rwa [← differ other (ordered.subset mem) block member same]
      grind [verdict_settled_cons, settled, lookup_settle_self]
    · obtain ⟨older, _, subset, _, olderBehind⟩ := ordered.behind old
      have ne : env.hashOf block.toCBlockHeader ≠ env.hashOf newest.toCBlockHeader := fun same =>
        new (differ block (ordered.subset old) newest member same ▸ old)
      rw [(verdict_settled_cons differ unchecked ordered (ordered.subset old)
        (olderBehind.mono subset) own member new).1, settled, lookup_settle_of_ne ne, ih old]

theorem settled_agree {other : List CBlock} (ordered : InOrder env blocks received)
    (ordered' : InOrder env blocks other) (mem : block ∈ received) (mem' : block ∈ other) :
    ((settled env other).lookup (env.hashOf block.toCBlockHeader)).map CBlockIndex.lasting
      = ((settled env received).lookup (env.hashOf block.toCBlockHeader)).map CBlockIndex.lasting := by
  induction ordered generalizing block with
  | nil => cases mem
  | @cons newest rest member new behind ordered ih =>
    by_cases isGenesis : env.hashOf block.toCBlockHeader = env.hashGenesisBlock
    · rw [isGenesis, settled_genesis, settled_genesis]
    · have full := InOrder.cons member new behind ordered
      rcases List.mem_cons.mp mem with rfl | old
      · have own := full.not_mem_own_past differ mem
        obtain ⟨older, _, subset, _, olderBehind⟩ := ordered'.behind mem'
        have agree : AgreeOn (pastOf env blocks block) (settled env rest) (settled env other) := by
          refine agreeOn_past differ ordered fun hash inPast => ?_
          have here := pastOf_subset differ ordered member behind inPast
          have there := pastOf_subset differ ordered' member (olderBehind.mono subset) inPast
          by_cases foreign : ∀ block ∈ blocks, env.hashOf block.toCBlockHeader ≠ hash
          · by_cases genesis : hash = env.hashGenesisBlock
            · rw [genesis, settled_genesis, settled_genesis]
            · rw [settled_unknown genesis fun b isMem => foreign b (ordered.subset isMem),
                settled_unknown genesis fun b isMem => foreign b (ordered'.subset isMem)]
          · simp only [not_forall, not_not] at foreign
            obtain ⟨past, pastMem, rfl⟩ := foreign
            exact ih (here past pastMem rfl) (there past pastMem rfl)
        rw [settled_lookup differ unchecked ordered' mem' isGenesis,
          settled_lookup differ unchecked full mem isGenesis,
          (verdict_settled_cons differ unchecked ordered member behind own member new).1]
        exact agree.verdict_eq (settled_noCheckpoint unchecked ordered.subset)
          (settled_noCheckpoint unchecked ordered'.subset) own (listed_mem_pastOf differ member)
      · have ne : env.hashOf block.toCBlockHeader ≠ env.hashOf newest.toCBlockHeader := fun same =>
          new (differ block (ordered.subset old) newest member same ▸ old)
        rw [settled, lookup_settle_of_ne ne, ih old mem']

end Order

end QuantBTC.Node
