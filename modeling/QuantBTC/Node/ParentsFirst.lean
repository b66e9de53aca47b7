/-
# Node.ParentsFirst -- nodes that receive bodies after their parents' bodies

When every body arrives after the bodies of all its parents, and no two headers with one
hash differ, the stored blocks of a node form a DAG in which each block is scored from its
parents as they are: later arrivals do not change what a score depends on.
-/
import QuantBTC.Node.NodeDag

namespace QuantBTC.Node

set_option autoImplicit false

open Primitives Dag Theory.ParentGraph

def HashNames (env : ChainEnv) (headers : Set CBlockHeader) : Prop :=
  ∀ a ∈ headers, ∀ b ∈ headers, env.hashOf a = env.hashOf b → a = b

instance (env : ChainEnv) (headers : List CBlockHeader) :
    Decidable (HashNames env {header | header ∈ headers}) :=
  inferInstanceAs (Decidable (∀ a ∈ headers, ∀ b ∈ headers, env.hashOf a = env.hashOf b → a = b))

def ParentsStored (env : ChainEnv) (node : NodeDag) (header : CBlockHeader) : Prop :=
  node.stored (env.hashOf header) = true ∨
    (node.stored header.hashPrevBlock = true ∧
      ∀ parent ∈ dagParents header, node.stored parent = true)

/-! ## Entries come from headers -/

structure HeaderOf (node : NodeDag) (header : CBlockHeader) (entry : DagEntry) : Prop where
  pprev : entry.pprev = some header.hashPrevBlock
  nBits : entry.nBits = header.nBits
  partly : entry.vDagParents.Sublist (dagParents header)
  height : ∃ prev, node.view header.hashPrevBlock = some prev ∧ entry.nHeight = prev.nHeight + 1

structure Known (env : ChainEnv) (headers : Set CBlockHeader) (node : NodeDag) : Prop where
  genesis : node.view env.hashGenesisBlock = some (genesisEntry env)
  genesis_stored : node.stored env.hashGenesisBlock = true
  header : ∀ hash entry, node.view hash = some entry → hash ≠ env.hashGenesisBlock →
    ∃ header ∈ headers, env.hashOf header = hash ∧ HeaderOf node header entry

section Known

variable {env : ChainEnv} {headers : Set CBlockHeader} {node later : NodeDag}

variable {header : CBlockHeader}

theorem HeaderOf.of_heights {entry : DagEntry} (known : HeaderOf node header entry) (heights : ∀
      hash prev, node.view hash = some prev → ∃ prev', later.view hash = some prev' ∧ prev'.nHeight
      = prev.nHeight) : HeaderOf later header entry := by
  obtain ⟨prev, found, height⟩ := known.height
  obtain ⟨prev', found', same⟩ := heights _ prev found
  exact ⟨known.pprev, known.nBits, known.partly, prev', found', by rw [height, same]⟩

theorem Known.headerStep (known : Known env headers node) (arrived : header ∈ headers)
    (step : NodeDag.HeaderStep env header node later) : Known env headers later := by
  have keeps : ∀ hash entry, node.view hash = some entry → later.view hash = some entry :=
    fun _ _ => step.view_eq
  cases step with
  | skip => exact known
  | add prev unknown found =>
    refine ⟨keeps _ _ known.genesis, known.genesis_stored, fun hash entry isEntry other => ?_⟩
    by_cases same : hash = env.hashOf header
    · subst same
      cases NodeDag.view_set_self.symm.trans isEntry
      exact ⟨header, arrived, rfl, rfl, rfl, NodeDag.knownParents_sublist env node header, prev,
        keeps _ _ found, rfl⟩
    · have old := (NodeDag.view_set_of_ne same).symm.trans isEntry
      obtain ⟨header', mem, named, headerOf⟩ := known.header hash entry old other
      refine ⟨header', mem, named, headerOf.of_heights fun hash prev found => ?_⟩
      exact ⟨prev, keeps _ _ found, rfl⟩

theorem Known.set {entry : DagEntry} (names : HashNames env headers)
    (known : Known env headers node) (arrived : header ∈ headers)
    (found : node.view (env.hashOf header) = some entry)
    (pending : node.stored (env.hashOf header) = false) (vDagParents : List Uint256)
    (dagData : GhostdagData)
    (partly : vDagParents.Sublist (dagParents header) ∨ vDagParents = entry.vDagParents) :
    Known env headers (node.set (env.hashOf header) { entry with vDagParents, dagData }) := by
  have notGenesis : env.hashOf header ≠ env.hashGenesisBlock := by
    intro same
    simp [same, known.genesis_stored] at pending
  have heights : ∀ hash prev, node.view hash = some prev →
      ∃ prev', (node.set (env.hashOf header) { entry with vDagParents, dagData }).view hash
        = some prev' ∧ prev'.nHeight = prev.nHeight := by
    grind [NodeDag.view_set_self, NodeDag.view_set_of_ne]
  refine ⟨(NodeDag.view_set_of_ne notGenesis.symm).trans known.genesis, known.genesis_stored,
    fun hash current isEntry other => ?_⟩
  by_cases same : hash = env.hashOf header
  · subst same
    cases NodeDag.view_set_self.symm.trans isEntry
    obtain ⟨header', mem, named, headerOf⟩ := known.header _ entry found other
    obtain rfl := names header' mem header arrived named
    have moved := headerOf.of_heights heights
    refine ⟨header', mem, rfl, moved.pprev, moved.nBits, ?_, moved.height⟩
    rcases partly with partly | unchanged
    · exact partly
    · exact unchanged ▸ moved.partly
  · have old := (NodeDag.view_set_of_ne same).symm.trans isEntry
    obtain ⟨header', mem, named, headerOf⟩ := known.header hash current old other
    exact ⟨header', mem, named, headerOf.of_heights heights⟩

theorem Known.store (known : Known env headers node) (hash : Uint256) :
    Known env headers (node.store hash) where
  genesis := known.genesis
  genesis_stored := by
    by_cases same : env.hashGenesisBlock = hash
    · subst same
      exact NodeDag.stored_store_self
    · exact (NodeDag.stored_store_of_ne same).trans known.genesis_stored
  header hash entry found other := by
    obtain ⟨header, mem, named, headerOf⟩ := known.header hash entry found other
    exact ⟨header, mem, named, headerOf.of_heights fun _ prev found => ⟨prev, found, rfl⟩⟩

end Known

/-! ## Stored blocks are scored from their parents -/

def Local (Extra : IGhostdagBlockProvider → List Uint256 → Prop) : Prop :=
  ∀ (provider other : IGhostdagBlockProvider) (blocks : Set Uint256) (parents : List Uint256),
    ProvidersAgree provider other blocks → (∀ parent ∈ parents, parent ∈ blocks) →
    Extra provider parents → Extra other parents

structure Ordered (env : ChainEnv) (headers : Set CBlockHeader)
    (Extra : IGhostdagBlockProvider → List Uint256 → Prop) (node : NodeDag)
    (order : List Uint256) : Prop extends Known env headers node where
  mem_iff : ∀ hash, hash ∈ order ↔ node.stored hash = true
  nodup : order.Nodup
  topological : Topological node.view.getParents order
  found : ∀ hash ∈ order, ∃ entry, node.view hash = some entry
  complete : ∀ header ∈ headers, env.hashOf header ∈ order →
    env.hashOf header ≠ env.hashGenesisBlock →
    ∀ entry, node.view (env.hashOf header) = some entry → entry.vDagParents = dagParents header
  scored : ∀ hash ∈ order, ∀ entry, node.view hash = some entry →
    computeGhostdag node.view.provider env.params.ghostdagK entry.parents = some entry.dagData
  extra : ∀ hash ∈ order, ∀ entry, node.view hash = some entry → entry.parents ≠ [] →
    Extra node.view.provider entry.parents

namespace Ordered

variable {env : ChainEnv} {headers : Set CBlockHeader}
  {Extra : IGhostdagBlockProvider → List Uint256 → Prop} {node later : NodeDag}
  {order : List Uint256}

variable {hash : Uint256} {entry : DagEntry}

theorem parents_mem (ordered : Ordered env headers Extra node order) (mem : hash ∈ order)
    (isEntry : node.view hash = some entry) : ∀ parent ∈ entry.parents, parent ∈ order := by
  intro parent isParent
  refine ordered.topological.closed hash mem parent ?_
  rwa [DagView.getParents, isEntry]

theorem selected (ordered : Ordered env headers Extra node order) (mem : hash ∈ order)
    (isEntry : node.view hash = some entry) :
    entry.dagData.selectedParent = 0 ∨ entry.dagData.selectedParent ∈ entry.parents := by
  rcases computeGhostdag_cases _ (ordered.scored hash mem entry isEntry) with
    ⟨_, unscored⟩ | ⟨nonempty, _, _, _, scored⟩
  · exact .inl (by rw [unscored])
  · exact .inr (scored.selected ▸ selectBestParent_mem _ nonempty)

theorem agrees (ordered : Ordered env headers Extra node order)
    (agree : ∀ hash ∈ order, later.view hash = node.view hash) :
    ProvidersAgree node.view.provider later.view.provider {hash | hash ∈ order} :=
  DagView.provider_agrees ordered.topological.closed agree fun _ mem _ isEntry =>
    (ordered.selected mem isEntry).imp_right (ordered.parents_mem mem isEntry _)

theorem of_agree (isLocal : Local Extra) (ordered : Ordered env headers Extra node order)
    (known : Known env headers later) (stored : later.stored = node.stored)
    (agree : ∀ hash ∈ order, later.view hash = node.view hash) :
    Ordered env headers Extra later order where
  toKnown := known
  mem_iff hash := by rw [stored, ordered.mem_iff]
  nodup := ordered.nodup
  topological := ordered.topological.congr fun hash mem => DagView.getParents_eq agree mem
  found hash mem := by
    rw [agree hash mem]
    exact ordered.found hash mem
  complete header arrived mem other entry isEntry :=
    ordered.complete header arrived mem other entry ((agree _ mem).symm.trans isEntry)
  scored hash mem entry isEntry := by
    have before := (agree hash mem).symm.trans isEntry
    rw [(ordered.agrees agree).computeGhostdag_eq _ (ordered.parents_mem mem before)]
    exact ordered.scored hash mem entry before
  extra hash mem entry isEntry nonempty := by
    have before := (agree hash mem).symm.trans isEntry
    exact isLocal _ _ _ _ (ordered.agrees agree) (ordered.parents_mem mem before)
      (ordered.extra hash mem entry before nonempty)

theorem store (ordered : Ordered env headers Extra node order) (pending : node.stored hash = false)
    (isEntry : node.view hash = some entry) (parents : ∀ parent ∈ entry.parents, parent ∈ order)
      (complete : ∀ header ∈ headers, env.hashOf header = hash → entry.vDagParents = dagParents
      header) (scored : computeGhostdag node.view.provider env.params.ghostdagK entry.parents = some
      entry.dagData) (extra : Extra node.view.provider entry.parents) :
    Ordered env headers Extra (node.store hash) (hash :: order) where
  toKnown := ordered.toKnown.store hash
  mem_iff other := by
    by_cases same : other = hash
    · subst same
      exact iff_of_true (List.mem_cons_self ..) NodeDag.stored_store_self
    · rw [List.mem_cons, NodeDag.stored_store_of_ne same, ordered.mem_iff]
      exact or_iff_right same
  nodup := by
    refine List.nodup_cons.mpr ⟨fun mem => ?_, ordered.nodup⟩
    simp [ordered.mem_iff, pending] at mem
  topological := by
    refine .cons ?_ ordered.topological
    grind [DagView.getParents, NodeDag.store]
  found := List.forall_mem_cons.mpr ⟨⟨entry, isEntry⟩, ordered.found⟩
  complete header arrived mem other entry' isEntry' := by
    rcases List.mem_cons.mp mem with same | old
    · cases (same ▸ isEntry').symm.trans isEntry
      exact complete header arrived same
    · exact ordered.complete header arrived old other entry' isEntry'
  scored other mem entry' isEntry' := by
    rcases List.mem_cons.mp mem with rfl | old
    · cases isEntry'.symm.trans isEntry
      exact scored
    · exact ordered.scored other old entry' isEntry'
  extra other mem entry' isEntry' nonempty := by
    rcases List.mem_cons.mp mem with rfl | old
    · cases isEntry'.symm.trans isEntry
      exact extra
    · exact ordered.extra other old entry' isEntry' nonempty

variable {header : CBlockHeader}

theorem headerStep (isLocal : Local Extra) (ordered : Ordered env headers Extra node order)
    (arrived : header ∈ headers) (step : NodeDag.HeaderStep env header node later) :
    Ordered env headers Extra later order := by
  refine ordered.of_agree isLocal (ordered.toKnown.headerStep arrived step) step.stored_eq ?_
  intro hash mem
  obtain ⟨entry, isEntry⟩ := ordered.found hash mem
  rw [step.view_eq isEntry, isEntry]

theorem complete_of_partly (names : HashNames env headers) (known : Known env headers node)
    (arrived : header ∈ headers) (isEntry : node.view (env.hashOf header) = some entry)
    (pending : node.stored (env.hashOf header) = false) :
    entry.pprev = some header.hashPrevBlock ∧
      NodeDag.completeParents header entry = dagParents header := by
  have notGenesis : env.hashOf header ≠ env.hashGenesisBlock := by
    intro same
    simp [same, known.genesis_stored] at pending
  obtain ⟨header', mem, named, headerOf⟩ := known.header _ entry isEntry notGenesis
  obtain rfl := names header' mem header arrived named
  refine ⟨headerOf.pprev, ?_⟩
  rw [NodeDag.completeParents]
  split
  · rfl
  next enough => exact headerOf.partly.eq_of_length_le (not_lt.mp enough)

theorem bodyStep (names : HashNames env headers) (isLocal : Local Extra)
    (dagMode : env.dagMode = true) (ordered : Ordered env headers Extra node order)
    (arrived : header ∈ headers) (ready : ParentsStored env node header) (extra : node.stored
      (env.hashOf header) = true ∨ Extra node.view.provider (header.hashPrevBlock :: dagParents
      header)) (step : NodeDag.BodyStep env header node later) :
    ∃ order, Ordered env headers Extra later order := by
  have agree : ∀ hash ∈ order, later.view hash = node.view hash :=
    fun hash mem => step.view_eq ((ordered.mem_iff hash).mp mem)
  cases step with
  | skip => exact ⟨order, ordered⟩
  | resolve entry vDagParents _ isEntry pending partly =>
    have known := ordered.toKnown.set names arrived isEntry pending vDagParents entry.dagData partly
    exact ⟨order, ordered.of_agree isLocal known rfl agree⟩
  | plain _ off => rw [dagMode] at off; cases off
  | score entry dagData _ isEntry pending scored =>
    have notStored : node.stored (env.hashOf header) ≠ true := by rw [pending]; exact Bool.false_ne_true
    obtain ⟨pprev, complete⟩ := complete_of_partly names ordered.toKnown arrived isEntry pending
    rw [complete] at scored agree ⊢
    have readyParents := ready.resolve_left notStored
    have inOrder : ∀ parent ∈ header.hashPrevBlock :: dagParents header, parent ∈ order := by
      rw [List.forall_mem_cons]
      exact ⟨(ordered.mem_iff _).mpr readyParents.1,
        fun parent mem => (ordered.mem_iff _).mpr (readyParents.2 parent mem)⟩
    -- the score was computed while the entry still had its old data
    have whileScoring : ∀ hash ∈ order, (node.set (env.hashOf header)
        { entry with vDagParents := dagParents header }).view hash = node.view hash := by
      intro hash mem
      refine NodeDag.view_set_of_ne ?_
      rintro rfl
      exact notStored ((ordered.mem_iff _).mp mem)
    have parents : entry.pprev.toList ++ dagParents header
        = header.hashPrevBlock :: dagParents header := by
      rw [pprev]
      rfl
    have scoredHere := ChainstateManager.scoreParents_some
      (by rw [parents]; exact List.cons_ne_nil _ _) scored
    rw [parents, (ordered.agrees whileScoring).computeGhostdag_eq _ inOrder] at scoredHere
    have known := ordered.toKnown.set names arrived isEntry pending (dagParents header) dagData
      (.inl (List.Sublist.refl _))
    have orderedSet := ordered.of_agree isLocal known rfl agree
    refine ⟨_, orderedSet.store pending NodeDag.view_set_self ?_ ?_ ?_ ?_⟩
    · intro parent isParent
      exact inOrder parent (parents ▸ isParent)
    · intro header' mem named
      rw [names header' mem header arrived named]
    · rw [DagEntry.parents, parents]
      exact ((ordered.agrees agree).computeGhostdag_eq _ inOrder).trans scoredHere
    · rw [DagEntry.parents, parents]
      exact isLocal _ _ _ _ (ordered.agrees agree) inOrder (extra.resolve_left notStored)

theorem start (env : ChainEnv) (headers : Set CBlockHeader)
    (Extra : IGhostdagBlockProvider → List Uint256 → Prop) :
    Ordered env headers Extra (ChainstateManager.loadGenesisBlock env).blockIndex.nodeDag
      [env.hashGenesisBlock] := by
  rw [loadGenesisBlock_nodeDag]
  refine ⟨⟨NodeDag.view_set_self, NodeDag.stored_store_self, ?_⟩, ?_, List.nodup_singleton _, ?_, ?_,
    ?_, ?_, ?_⟩
  · exact fun hash entry isEntry other => absurd (genesisNode_view isEntry).1 other
  · intro hash
    by_cases same : hash = env.hashGenesisBlock
    · subst same
      exact iff_of_true (List.mem_singleton_self _) NodeDag.stored_store_self
    · refine iff_of_false (fun mem => same (List.mem_singleton.mp mem)) ?_
      rw [NodeDag.stored_store_of_ne same]
      exact Bool.false_ne_true
  · refine .cons ?_ .nil
    intro parent isParent
    rw [DagView.getParents, NodeDag.store, NodeDag.view_set_self] at isParent
    cases isParent
  · intro hash mem
    rw [List.mem_singleton.mp mem]
    exact ⟨_, NodeDag.view_set_self⟩
  · intro header _ mem other
    exact absurd (List.mem_singleton.mp mem) other
  · intro hash _ entry isEntry
    obtain ⟨_, rfl⟩ := genesisNode_view isEntry
    rfl
  · intro hash _ entry isEntry nonempty
    obtain ⟨_, rfl⟩ := genesisNode_view isEntry
    exact absurd rfl nonempty

variable {Extra' : IGhostdagBlockProvider → List Uint256 → Prop}

theorem entry_eq {order' : List Uint256} (names : HashNames env headers)
    (ordered : Ordered env headers Extra node order)
    (ordered' : Ordered env headers Extra' later order') {blocks : Set Uint256}
    (closed : Closed node.view.getParents blocks) (inside : ∀ block ∈ blocks, block ∈ order)
    (agree : ∀ block ∈ blocks, later.view block = node.view block) (mem : hash ∈ order)
    (mem' : hash ∈ order')
    (parents : ∀ parent ∈ node.view.getParents hash, parent ∈ order' → parent ∈ blocks) :
    later.view hash = node.view hash := by
  by_cases genesis : hash = env.hashGenesisBlock
  · rw [genesis, ordered.genesis, ordered'.genesis]
  · obtain ⟨entry, isEntry⟩ := ordered.found hash mem
    obtain ⟨entry', isEntry'⟩ := ordered'.found hash mem'
    obtain ⟨header, arrived, rfl, headerOf⟩ := ordered.header hash entry isEntry genesis
    obtain ⟨header', arrived', named, headerOf'⟩ := ordered'.header _ entry' isEntry' genesis
    obtain rfl := names header' arrived' header arrived named
    have all := ordered.complete header' arrived mem genesis entry isEntry
    have all' := ordered'.complete header' arrived mem' genesis entry' isEntry'
    have sameParents : entry'.parents = entry.parents := by
      rw [DagEntry.parents, DagEntry.parents, headerOf.pprev, headerOf'.pprev, all, all']
    have inBlocks : ∀ parent ∈ entry.parents, parent ∈ blocks := by
      intro parent isParent
      refine parents parent (by rwa [DagView.getParents, isEntry]) ?_
      exact ordered'.parents_mem mem' isEntry' parent (sameParents ▸ isParent)
    have prevMem : header'.hashPrevBlock ∈ blocks := by
      refine inBlocks _ ?_
      simp [DagEntry.parents, headerOf.pprev]
    have providers : ProvidersAgree node.view.provider later.view.provider blocks := by
      refine DagView.provider_agrees closed agree fun block inBlock entry found => ?_
      refine (ordered.selected (inside block inBlock) found).imp_right fun selected => ?_
      exact closed block inBlock _ (by rwa [DagView.getParents, found])
    have scored := ordered.scored _ mem entry isEntry
    have scored' := ordered'.scored _ mem' entry' isEntry'
    rw [sameParents, providers.computeGhostdag_eq _ inBlocks, scored] at scored'
    obtain ⟨prev, found, height⟩ := headerOf.height
    obtain ⟨prev', found', height'⟩ := headerOf'.height
    rw [agree _ prevMem, found] at found'
    obtain rfl := Option.some.inj found'
    rw [isEntry, isEntry']
    refine congrArg some (DagEntry.ext ?_ ?_ ?_ ?_ ?_)
    · rw [headerOf.pprev, headerOf'.pprev]
    · rw [height, height']
    · rw [headerOf.nBits, headerOf'.nBits]
    · rw [all, all']
    · exact (Option.some.inj scored').symm

theorem view_eq {order' : List Uint256} (names : HashNames env headers)
    (ordered : Ordered env headers Extra node order)
    (ordered' : Ordered env headers Extra' later order') (mem : hash ∈ order) (mem' : hash ∈ order') :
    later.view hash = node.view hash := by
  -- by induction from the oldest stored block of the first node to the newest
  have behind : ∀ rest, rest <:+ order →
      ∀ hash ∈ rest, hash ∈ order' → later.view hash = node.view hash := by
    intro rest isSuffix
    induction rest with
    | nil => exact fun hash mem => nomatch mem
    | cons first rest ih =>
      have topological := ordered.topological.suffix isSuffix
      have restSuffix : rest <:+ order := (List.suffix_cons first rest).trans isSuffix
      have agree := ih restSuffix
      cases topological with
      | cons parentsBehind topological =>
        have closed : Closed node.view.getParents {block | block ∈ rest ∧ block ∈ order'} := by
          rintro block ⟨inRest, inOrder'⟩ parent isParent
          refine ⟨topological.closed block inRest parent isParent, ?_⟩
          refine ordered'.topological.closed block inOrder' parent ?_
          rwa [DagView.getParents, agree block inRest inOrder']
        rw [List.forall_mem_cons]
        refine ⟨fun firstMem' => ?_, agree⟩
        refine entry_eq names ordered ordered' closed
          (fun block inBlock => restSuffix.subset inBlock.1)
          (fun block inBlock => agree block inBlock.1 inBlock.2)
          (isSuffix.subset (List.mem_cons_self ..)) firstMem' ?_
        exact fun parent isParent inOrder' => ⟨parentsBehind parent isParent, inOrder'⟩
  exact behind order List.suffix_rfl hash mem mem'

end Ordered

theorem ordered_run {env : ChainEnv} {headers : Set CBlockHeader}
    {Extra : IGhostdagBlockProvider → List Uint256 → Prop} (names : HashNames env headers)
    (isLocal : Local Extra) (dagMode : env.dagMode = true) (arrivals : List Arrival)
    (arrived : ∀ arrival ∈ arrivals, arrival.carried ∈ headers)
    (meets : BodiesMeet env (fun node header => ParentsStored env node header ∧
      (node.stored (env.hashOf header) = true ∨
        Extra node.view.provider (header.hashPrevBlock :: dagParents header)))
      (ChainstateManager.loadGenesisBlock env) arrivals) :
    ∃ order, Ordered env headers Extra (runArrivals env arrivals).blockIndex.nodeDag order := by
  refine run_rule (fun node => ∃ order, Ordered env headers Extra node order) ?_ ?_ ?_
    ⟨_, Ordered.start env headers Extra⟩ meets
  · rintro node ⟨order, ordered⟩
    rw [ordered.genesis]
    rfl
  · rintro arrival mem node later ⟨order, ordered⟩ step
    exact ⟨order, ordered.headerStep isLocal (arrived arrival mem) step⟩
  · rintro arrival mem before node later ⟨order, ordered⟩ ⟨ready, extra⟩ first - second
    have here := ordered.headerStep isLocal (arrived arrival mem) first
    refine here.bodyStep names isLocal dagMode (arrived arrival mem) ?_ ?_ second
    · rwa [ParentsStored, first.stored_eq]
    · rw [first.stored_eq]
      by_cases stored : before.stored (env.hashOf arrival.carried) = true
      · exact .inl stored
      · obtain ⟨prev, parents⟩ := ready.resolve_left stored
        have agree : ∀ hash ∈ order, node.view hash = before.view hash := by
          intro hash mem
          obtain ⟨entry, isEntry⟩ := ordered.found hash mem
          rw [first.view_eq isEntry, isEntry]
        refine .inr (isLocal _ _ _ _ (ordered.agrees agree) ?_ (extra.resolve_left stored))
        rw [List.forall_mem_cons]
        exact ⟨(ordered.mem_iff _).mpr prev, fun parent mem => (ordered.mem_iff _).mpr (parents parent mem)⟩

end QuantBTC.Node
