/-
# Node.BlueWork -- is the blue work the work of the blue past?

`blue_work` starts from that of the selected parent and adds the work of the blue merges.  The
work of the selected parents themselves is never added, and the work of a merge is the low 64
bits of its proof.
-/
import QuantBTC.Node.BlueScore
import QuantBTC.Node.Persistence

namespace QuantBTC.Node

set_option autoImplicit false

open Primitives Dag

/-! ## The blue past and the comparison -/

def workComparator (pa pb : CBlockIndex) (addressAbove : Bool) : Bool :=
  if pa.nChainWork > pb.nChainWork then false
  else if pa.nChainWork < pb.nChainWork then true
  else if pa.dagData.blueWork > pb.dagData.blueWork then false
  else if pa.dagData.blueWork < pb.dagData.blueWork then true
  else if pa.nSequenceId < pb.nSequenceId then false
  else if pa.nSequenceId > pb.nSequenceId then true
  else addressAbove

def proofOf (view : DagView) (hash : Uint256) : Nat :=
  match view hash with
  | none => 0
  | some entry => Pow.getBlockProof entry.nBits

def totalProof (view : DagView) (blocks : List Uint256) : Nat :=
  ∑ block ∈ blocks.toFinset, proofOf view block

structure BlueWorkExact (index : BlockMap) : Prop where
  work : ∀ hash pindex, index.lookup hash = some pindex → pindex.nStatus.haveData = true →
    ∃ walk, BlueWalk index.dagView hash walk ∧
      pindex.dagData.blueWork.toNat = totalProof index.dagView walk
  prefers : ∀ hash pindex walk hash' pindex' walk' addressAbove,
    index.lookup hash = some pindex → pindex.nStatus.haveData = true →
    index.lookup hash' = some pindex' → pindex'.nStatus.haveData = true →
    BlueWalk index.dagView hash walk → BlueWalk index.dagView hash' walk' →
    pindex.nChainWork = pindex'.nChainWork →
    totalProof index.dagView walk < totalProof index.dagView walk' →
    workComparator pindex pindex' addressAbove = true

/-! ## The work of one block -/

theorem getBlockProof_pos {hash : Nat} {nBits : UInt32} {params : Consensus.Params}
    (valid : Pow.checkProofOfWork hash nBits params = true) : 0 < Pow.getBlockProof nBits := by
  unfold Pow.checkProofOfWork at valid
  dsimp only at valid
  split at valid
  · cases valid
  next fits =>
    have kept : ¬ (Pow.setCompactNegative nBits = true ∨ Pow.setCompactOverflow nBits = true ∨
        Pow.setCompact nBits = 0) := by tauto
    unfold Pow.getBlockProof
    rw [if_neg kept]
    have positive : Pow.setCompact nBits ≠ 0 := by tauto
    have quotient := Nat.div_le_self (2 ^ 256 - 1 - Pow.setCompact nBits)
      (Pow.add256 (Pow.setCompact nBits) 1)
    rw [Pow.add256, Nat.mod_eq_of_lt (by omega)]
    exact Nat.succ_pos _

def workBound (view : DagView) (hash : Uint256) : Nat :=
  match view hash with
  | none => 0
  | some entry => max 1 (Pow.getBlockProof entry.nBits)

theorem getBlockWork_le (view : DagView) (hash : Uint256) :
    (view.getBlockWork hash).toNat ≤ workBound view hash := by
  unfold DagView.getBlockWork workBound
  cases view hash with
  | none => exact le_rfl
  | some entry =>
    dsimp only
    split
    all_goals grind [UInt64.toNat_ofNat', Nat.mod_le]

theorem toNat_foldl_add_le (work : Uint256 → UInt64) (blues : List Uint256) (start : UInt64) :
    (blues.foldl (fun total blue => total + work blue) start).toNat
      ≤ start.toNat + (blues.map fun blue => (work blue).toNat).sum := by
  induction blues generalizing start with
  | nil => simp
  | cons blue rest ih =>
    grind [List.foldl_cons, List.map_cons, List.sum_cons, UInt64.toNat_add, Nat.mod_le]

/-! ## A block whose chain is not counted -/

structure Deficient (view : DagView) (data : GhostdagData) : Prop where
  known : (view data.selectedParent).isSome
  nodup : (data.selectedParent :: data.mergesetBlues).Nodup
  work : data.blueWork.toNat ≤ (data.mergesetBlues.map (workBound view)).sum

def KeepsTargets (view later : DagView) : Prop :=
  ∀ hash entry, view hash = some entry →
    ∃ entry', later hash = some entry' ∧ entry'.nBits = entry.nBits

variable {view : DagView}

theorem KeepsTargets.workBound_le {later : DagView} (keeps : KeepsTargets view later)
    (hash : Uint256) : workBound view hash ≤ workBound later hash := by
  unfold workBound
  cases found : view hash with
  | none => exact Nat.zero_le _
  | some entry =>
    obtain ⟨entry', found', same⟩ := keeps hash entry found
    rw [found']
    dsimp only
    rw [same]

theorem Deficient.mono {later : DagView} {data : GhostdagData} (keeps : KeepsTargets view later)
    (deficient : Deficient view data) : Deficient later data  where
  known := by
    obtain ⟨entry, found⟩ := Option.isSome_iff_exists.mp deficient.known
    obtain ⟨entry', found', _⟩ := keeps _ entry found
    rw [found']
    rfl
  nodup := deficient.nodup
  work := deficient.work.trans <| List.sum_le_sum fun hash _ => keeps.workBound_le hash

variable {hash : Uint256}

theorem keepsTargets_set {node : NodeDag} {entry entry' : DagEntry}
    (found : node.view hash = some entry) (same : entry'.nBits = entry.nBits) :
    KeepsTargets node.view (node.set hash entry').view := by
  intro other otherEntry isEntry
  grind [NodeDag.view_set_self, NodeDag.view_set_of_ne]

theorem keepsTargets_reset {node : NodeDag} {entry entry' : DagEntry}
    (same : entry'.nBits = entry.nBits) :
    KeepsTargets (node.set hash entry).view (node.set hash entry').view := by
  have found : (node.set hash entry).view hash = some entry := NodeDag.view_set_self
  have again := keepsTargets_set found same
  rwa [NodeDag.set, NodeDag.set, Function.update_idem] at again

section Steps

variable {env : ChainEnv} {header : CBlockHeader} {node later : NodeDag}

theorem headerStep_keepsTargets (step : NodeDag.HeaderStep env header node later) :
    KeepsTargets node.view later.view :=
  fun _ entry isEntry => ⟨entry, step.view_eq isEntry, rfl⟩

theorem bodyStep_keepsTargets (step : NodeDag.BodyStep env header node later) :
    KeepsTargets node.view later.view := by
  cases step with
  | skip => exact fun _ entry isEntry => ⟨entry, isEntry, rfl⟩
  | resolve entry _ _ found => exact keepsTargets_set found rfl
  | score entry _ _ found => exact keepsTargets_set found rfl
  | plain => exact fun _ entry isEntry => ⟨entry, isEntry, rfl⟩

theorem deficient_of_scored {view : DagView} {k : Nat} {parents : List Uint256}
    {data : GhostdagData} (unscored : ∀ hash entry, view hash = some entry → entry.dagData = {})
    (nonempty : parents ≠ []) (computed : computeGhostdag view.provider k parents = some data) :
    Deficient view data := by
  obtain ⟨spData, spFound, work⟩ := computeGhostdag_blueWork _ nonempty computed
  obtain ⟨spEntry, isEntry, rfl⟩ := Option.map_eq_some_iff.mp spFound
  rcases computeGhostdag_cases _ computed with ⟨empty, _⟩ | ⟨_, _, inherited, mergeset, scored⟩
  · exact absurd empty nonempty
  · have merged := computeMergeset_spec scored.merged
    refine ⟨?_, ?_, ?_⟩
    · rw [isEntry]
      rfl
    · rw [scored.blues, List.nodup_cons]
      exact ⟨fun mem => merged.selected (mem_classifyMergeset _ mem),
        nodup_classifyMergeset _ merged.nodup⟩
    · rw [work, unscored _ _ isEntry]
      refine (toNat_foldl_add_le _ _ _).trans ?_
      simp only [UInt64.toNat_zero, Nat.zero_add]
      exact List.sum_le_sum fun hash _ => getBlockWork_le view hash

end Steps

/-! ## Along a run -/

structure WorkInv (env : ChainEnv) (node : NodeDag) : Prop where
  genesis : (node.view env.hashGenesisBlock).isSome ∧ node.stored env.hashGenesisBlock = true
  prev : ∀ hash entry, node.view hash = some entry → hash ≠ env.hashGenesisBlock →
    entry.pprev ≠ none
  work : ((∀ hash entry, node.view hash = some entry → entry.dagData = {}) ∧
      ∀ hash, node.stored hash = true → hash = env.hashGenesisBlock) ∨
    ∃ hash entry, hash ≠ env.hashGenesisBlock ∧ node.stored hash = true ∧
      node.view hash = some entry ∧ Deficient node.view entry.dagData


section Inv

variable {env : ChainEnv} {header : CBlockHeader} {node later : NodeDag}

theorem WorkInv.headerStep (inv : WorkInv env node)
    (step : NodeDag.HeaderStep env header node later) : WorkInv env later := by
  have keeps := headerStep_keepsTargets step
  refine ⟨⟨?_, ?_⟩, ?_, ?_⟩
  · obtain ⟨entry, isEntry⟩ := Option.isSome_iff_exists.mp inv.genesis.1
    rw [step.view_eq isEntry]
    rfl
  · rw [step.stored_eq]
    exact inv.genesis.2
  · cases step with
    | skip => exact inv.prev
    | add prev unknown found =>
      intro hash entry isEntry other
      by_cases same : hash = env.hashOf header
      · subst same
        rw [NodeDag.view_set_self] at isEntry
        cases isEntry
        exact Option.some_ne_none _
      · rw [NodeDag.view_set_of_ne same] at isEntry
        exact inv.prev hash entry isEntry other
  · rw [step.stored_eq]
    rcases inv.work with ⟨unscored, alone⟩ | ⟨hash, entry, other, stored, isEntry, deficient⟩
    · refine .inl ⟨fun hash entry isEntry => ?_, alone⟩
      cases step with
      | skip => exact unscored hash entry isEntry
      | add prev unknown found => grind [NodeDag.view_set_self, NodeDag.view_set_of_ne]
    · exact .inr ⟨hash, entry, other, stored, step.view_eq isEntry, deficient.mono keeps⟩

variable {hash : Uint256}

theorem WorkInv.ne_genesis (inv : WorkInv env node) (pending : node.stored hash = false) :
    hash ≠ env.hashGenesisBlock := by
  rintro rfl
  simp [inv.genesis.2] at pending

theorem WorkInv.prev_set (inv : WorkInv env node) {entry entry' : DagEntry}
    (found : node.view hash = some entry) (same : entry'.pprev = entry.pprev) :
    ∀ other otherEntry, (node.set hash entry').view other = some otherEntry →
      other ≠ env.hashGenesisBlock → otherEntry.pprev ≠ none := by
  intro other otherEntry isEntry notGenesis
  by_cases eq : other = hash
  · subst eq
    rw [NodeDag.view_set_self] at isEntry
    cases isEntry
    rw [same]
    exact inv.prev other entry found notGenesis
  · rw [NodeDag.view_set_of_ne eq] at isEntry
    exact inv.prev other otherEntry isEntry notGenesis

theorem unscored_set {entry : DagEntry}
    (unscored : ∀ hash entry, node.view hash = some entry → entry.dagData = {})
    (new : entry.dagData = {}) :
    ∀ other otherEntry, (node.set hash entry).view other = some otherEntry →
      otherEntry.dagData = {} := by grind [NodeDag.view_set_self, NodeDag.view_set_of_ne]

theorem bodyStep_stored (step : NodeDag.BodyStep env header node later)
    (stored : node.stored hash = true) : later.stored hash = true := by
  cases step with
  | skip => exact stored
  | resolve => exact stored
  | score =>
    by_cases same : hash = env.hashOf header
    · rw [same, NodeDag.stored_store_self]
    · rwa [NodeDag.stored_store_of_ne same]
  | plain => grind [NodeDag.stored_store_self, NodeDag.stored_store_of_ne]

theorem WorkInv.bodyStep (on : env.dagMode = true) (inv : WorkInv env node)
    (step : NodeDag.BodyStep env header node later) : WorkInv env later := by
  have keeps := bodyStep_keepsTargets step
  have stays : ∀ hash, node.stored hash = true → later.stored hash = true :=
    fun hash stored => bodyStep_stored step stored
  have genesisStays := step.view_eq inv.genesis.2
  refine ⟨⟨by rw [genesisStays]; exact inv.genesis.1, stays _ inv.genesis.2⟩, ?_, ?_⟩
  · cases step with
    | skip => exact inv.prev
    | resolve entry _ _ found => exact inv.prev_set found rfl
    | score entry _ _ found => exact inv.prev_set found rfl
    | plain => exact inv.prev
  · rcases inv.work with ⟨unscored, alone⟩ | ⟨hash, entry, other, stored, isEntry, deficient⟩
    · cases step with
      | skip => exact .inl ⟨unscored, alone⟩
      | resolve entry vDagParents _ found =>
        have new : ({ entry with vDagParents } : DagEntry).dagData = {} := unscored _ entry found
        exact .inl ⟨unscored_set unscored new, alone⟩
      | score entry dagData _ found pending scored =>
        refine .inr ⟨env.hashOf header, _, inv.ne_genesis pending, NodeDag.stored_store_self,
          NodeDag.view_set_self, ?_⟩
        have nonempty : entry.pprev.toList ++ NodeDag.completeParents header entry ≠ [] := by
          cases isPrev : entry.pprev with
          | none => exact absurd isPrev (inv.prev _ entry found (inv.ne_genesis pending))
          | some prev => exact List.cons_ne_nil _ _
        have new : ({ entry with vDagParents := NodeDag.completeParents header entry } :
            DagEntry).dagData = {} := unscored _ entry found
        have deficient := deficient_of_scored (unscored_set unscored new) nonempty
          (ChainstateManager.scoreParents_some nonempty scored)
        refine Deficient.mono (keepsTargets_reset ?_) deficient
        rfl
      | plain _ off =>
        simp [on] at off
    · exact .inr ⟨hash, entry, other, stays hash stored, (step.view_eq stored).trans isEntry,
        deficient.mono keeps⟩

theorem workInv_run (on : env.dagMode = true) (arrivals : List Arrival) :
    WorkInv env (runArrivals env arrivals).blockIndex.nodeDag := by
  refine run_rule (WorkInv env) (fun node inv => inv.genesis.1)
    (fun _ _ _ _ inv step => inv.headerStep step)
    (fun _ _ _ _ _ _ _ _ inv step => inv.bodyStep on step) ?_ (bodiesMeet_true env _ arrivals)
  rw [loadGenesisBlock_nodeDag]
  refine ⟨⟨?_, NodeDag.stored_store_self⟩, ?_, .inl ⟨?_, ?_⟩⟩
  · exact Option.isSome_iff_exists.mpr ⟨genesisEntry env, NodeDag.view_set_self⟩
  · intro hash entry isEntry other
    exact absurd (genesisNode_view isEntry).1 other
  · intro hash entry isEntry
    rw [(genesisNode_view isEntry).2]
    rfl
  · intro hash stored
    by_contra other
    rw [NodeDag.stored_store_of_ne other] at stored
    cases stored

end Inv

/-! ## Blue work and blue past -/

theorem BlueWalk.selected_subset {walk : List Uint256} (isWalk : BlueWalk view hash walk)
    {entry : DagEntry} (isEntry : view hash = some entry)
    (selected : entry.dagData.selectedParent ≠ 0) :
    entry.dagData.selectedParent :: entry.dagData.mergesetBlues ⊆ walk := by
  cases isWalk with
  | root found null =>
    cases isEntry.symm.trans found
    exact absurd null selected
  | step found _ rest => grind

theorem Deficient.lt_totalProof {data : GhostdagData}
    (positive : ∀ hash entry, view hash = some entry → 0 < Pow.getBlockProof entry.nBits)
    (deficient : Deficient view data) {walk : List Uint256}
    (inWalk : data.selectedParent :: data.mergesetBlues ⊆ walk) :
    data.blueWork.toNat < totalProof view walk := by
  have bound : ∀ hash, workBound view hash = proofOf view hash := by grind [workBound, proofOf]
  obtain ⟨spEntry, spFound⟩ := Option.isSome_iff_exists.mp deficient.known
  have selected : 0 < proofOf view data.selectedParent := by
    rw [proofOf, spFound]
    exact positive _ spEntry spFound
  calc data.blueWork.toNat ≤ (data.mergesetBlues.map (proofOf view)).sum := by
        have work := deficient.work
        rwa [funext bound] at work
    _ < ((data.selectedParent :: data.mergesetBlues).map (proofOf view)).sum := by
        rw [List.map_cons, List.sum_cons]
        omega
    _ = totalProof view (data.selectedParent :: data.mergesetBlues) :=
        (List.sum_toFinset _ deficient.nodup).symm
    _ ≤ totalProof view walk := by
        refine Finset.sum_le_sum_of_subset_of_nonneg ?_ fun _ _ _ => Nat.zero_le _
        intro hash mem
        rw [List.mem_toFinset] at mem ⊢
        exact inWalk mem

theorem blueWorkExact_of_unscored {index : BlockMap}
    (unscored : ∀ hash entry, index.dagView hash = some entry → entry.dagData = {}) :
    BlueWorkExact index := by
  have noWalk : ∀ hash walk, BlueWalk index.dagView hash walk → walk = [] := by
    intro hash walk isWalk
    cases isWalk with
    | root found => rw [unscored _ _ found]
    | step found selected =>
      rw [unscored _ _ found] at selected
      exact absurd rfl selected
  constructor
  · intro hash pindex found _
    have isEntry := BlockMap.view_of_lookup found
    have data : pindex.dagData = {} := unscored hash _ isEntry
    refine ⟨_, .root isEntry ?_, ?_⟩
    · exact congrArg GhostdagData.selectedParent data
    · rw [show pindex.dagEntry.dagData = {} from data, data]
      rfl
  · grind

theorem proof_pos {env : ChainEnv} (genesisProof : 0 < Pow.getBlockProof env.genesis.nBits)
    (arrivals : List Arrival) (hash : Uint256) (entry : DagEntry)
    (isEntry : (runArrivals env arrivals).blockIndex.dagView hash = some entry) :
    0 < Pow.getBlockProof entry.nBits := by
  have sound := sound_arrivals env arrivals
  obtain ⟨pindex, found, rfl⟩ := Option.map_eq_some_iff.mp isEntry
  by_cases same : hash = env.hashGenesisBlock
  · subst same
    obtain ⟨genesis, isGenesis, nBits⟩ := sound.genesis
    cases found.symm.trans isGenesis
    rw [← nBits] at genesisProof
    exact genesisProof
  · exact getBlockProof_pos ((sound.consistent hash pindex found).pow same)

/-- **Blue work is the proof of the blue past only before the first block is scored**: in DAG
mode it fails in every state in which a block other than genesis is stored. -/
theorem blueWorkExact_iff (env : ChainEnv) (genesisProof : 0 < Pow.getBlockProof env.genesis.nBits)
    (arrivals : List Arrival) :
    BlueWorkExact (runArrivals env arrivals).blockIndex ↔
      env.dagMode = false ∨ ∀ hash,
        (runArrivals env arrivals).blockIndex.nodeDag.stored hash = true →
          hash = env.hashGenesisBlock := by
  cases on : env.dagMode with
  | false => exact iff_of_true (blueWorkExact_of_unscored (unscored_run on arrivals)) (.inl rfl)
  | true =>
    have inv := workInv_run on arrivals
    constructor
    · intro exact
      rcases inv.work with ⟨_, alone⟩ | ⟨hash, entry, _, stored, isEntry, deficient⟩
      · exact .inr alone
      · obtain ⟨pindex, found, rfl⟩ := Option.map_eq_some_iff.mp isEntry
        rw [BlockMap.stored_of_lookup found] at stored
        obtain ⟨walk, isWalk, work⟩ := exact.work hash pindex found stored
        have selected : pindex.dagData.selectedParent ≠ 0 := by
          obtain ⟨spEntry, spFound⟩ := Option.isSome_iff_exists.mp deficient.known
          obtain ⟨spIndex, isIndex, _⟩ := Option.map_eq_some_iff.mp spFound
          exact (sound_arrivals env arrivals).consistent.ne_zero isIndex
        have less := deficient.lt_totalProof (proof_pos genesisProof arrivals)
          (isWalk.selected_subset isEntry selected)
        exact absurd work less.ne
    · rintro (off | alone)
      · cases off
      · rcases inv.work with ⟨unscored, _⟩ | ⟨hash, _, other, stored, _⟩
        · exact blueWorkExact_of_unscored unscored
        · exact absurd (alone hash stored) other

/-- In a node that has not received anything. -/
theorem blueWorkExact_start : BlueWorkExact (runArrivals nonceChain []).blockIndex := by
  refine (blueWorkExact_iff nonceChain (by decide +kernel) []).mpr (.inr fun hash stored => ?_)
  by_contra other
  change (ChainstateManager.loadGenesisBlock nonceChain).blockIndex.nodeDag.stored hash = true
    at stored
  rw [loadGenesisBlock_nodeDag, NodeDag.stored_store_of_ne other] at stored
  cases stored

def mergeOfChain : List Arrival :=
  [nonceBlock 1 1 [], nonceBlock 2 1 [], nonceBlock 3 1 [], nonceBlock 4 2 [3, 4],
    nonceBlock 5 3 [], nonceBlock 6 6 [], nonceBlock 7 7 [], nonceBlock 8 2 [8]].map requestedBody

/-- Block `2` has blue work `0` over a blue past of proof `2`.  Blocks `5` and `9` have the same
chain work and a blue past of proof `8` and `12`, but `5` has more blue work and is preferred. -/
theorem blueWork_without_chain :
    let index := (runArrivals nonceChain mergeOfChain).blockIndex
    (∃ pindex, index.lookup 2 = some pindex ∧ pindex.nStatus.haveData = true ∧
      BlueWalk index.dagView 2 [1] ∧ pindex.dagData.blueWork = 0 ∧
      totalProof index.dagView [1] = 2) ∧
    ∃ five nine, index.lookup 5 = some five ∧ index.lookup 9 = some nine ∧
      (five.nStatus.haveData = true ∧ nine.nStatus.haveData = true ∧
        five.nChainWork = nine.nChainWork ∧ workComparator five nine true = false) ∧
      BlueWalk index.dagView 5 [3, 4, 2, 1] ∧ totalProof index.dagView [3, 4, 2, 1] = 8 ∧
      BlueWalk index.dagView 9 [2, 8, 7, 6, 3, 1] ∧
      totalProof index.dagView [2, 8, 7, 6, 3, 1] = 12 := by
  intro index
  have entries : [1, 2, 3, 5, 6, 7, 8, 9].map index.dagView =
      [some ⟨none, 0, 0x207fffff, [], {}⟩,
        some ⟨some 1, 1, 0x207fffff, [], ⟨1, 1, [], [], 0⟩⟩,
        some ⟨some 1, 1, 0x207fffff, [], ⟨1, 1, [], [], 0⟩⟩,
        some ⟨some 2, 2, 0x207fffff, [3, 4], ⟨4, 2, [3, 4], [], 4⟩⟩,
        some ⟨some 3, 2, 0x207fffff, [], ⟨2, 3, [], [], 0⟩⟩,
        some ⟨some 6, 3, 0x207fffff, [], ⟨3, 6, [], [], 0⟩⟩,
        some ⟨some 7, 4, 0x207fffff, [], ⟨4, 7, [], [], 0⟩⟩,
        some ⟨some 2, 2, 0x207fffff, [8], ⟨6, 8, [2], [], 2⟩⟩] := by
    decide +kernel
  simp only [List.map_cons, List.cons.injEq] at entries
  obtain ⟨one, two, three, five, six, seven, eight, nine, -⟩ := entries
  have proofs : [[1], [3, 4, 2, 1], [2, 8, 7, 6, 3, 1]].map (totalProof index.dagView)
      = [2, 8, 12] := by
    decide +kernel
  simp only [List.map_cons, List.cons.injEq] at proofs
  have root : BlueWalk index.dagView 1 [] := .root one rfl
  have twoWalk : BlueWalk index.dagView 2 [1] := .step two (by decide) root
  have threeWalk : BlueWalk index.dagView 3 [1] := .step three (by decide) root
  have eightWalk : BlueWalk index.dagView 8 [7, 6, 3, 1] :=
    .step eight (by decide) (.step seven (by decide) (.step six (by decide) threeWalk))
  have stored : ∃ pindex, index.lookup 2 = some pindex ∧
      (pindex.nStatus.haveData, pindex.dagData.blueWork) = (true, 0) := by
    rw [← Option.map_eq_some_iff]
    decide +kernel
  have compared : ∃ five, index.lookup 5 = some five ∧ ∃ nine, index.lookup 9 = some nine ∧
      (five.nStatus.haveData, nine.nStatus.haveData, five.nChainWork, nine.nChainWork,
        workComparator five nine true) = (true, true, 6, 6, false) := by
    have merged : ((index.lookup 5).bind fun five => (index.lookup 9).map fun nine =>
      (five.nStatus.haveData, nine.nStatus.haveData, five.nChainWork, nine.nChainWork,
        workComparator five nine true)) = some (true, true, 6, 6, false) := by
      decide +kernel
    simpa only [Option.bind_eq_some_iff, Option.map_eq_some_iff] using merged
  obtain ⟨pindex, found, data⟩ := stored
  obtain ⟨fiveIndex, fiveFound, nineIndex, nineFound, data'⟩ := compared
  simp only [Prod.mk.injEq] at data data'
  obtain ⟨fiveData, nineData, fiveWork, nineWork, prefersFive⟩ := data'
  exact ⟨⟨pindex, found, data.1, twoWalk, data.2, proofs.1⟩, fiveIndex, nineIndex, fiveFound,
    nineFound, ⟨fiveData, nineData, fiveWork.trans nineWork.symm, prefersFive⟩,
    .step five (by decide) twoWalk, proofs.2.1, .step nine (by decide) eightWalk, proofs.2.2.1⟩

end QuantBTC.Node
