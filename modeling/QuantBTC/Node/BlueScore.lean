/-
# Node.BlueScore -- does a blue score count distinct blocks?

Walking down the selected-parent chain of a block and collecting the chain and its blue
merges gives as many blocks as the blue score says.  `ComputeMergeset` keeps every listed
parent, also one that is in the past of the selected parent, so a block can be collected
twice; so can a block that `IsAncestorOf` wrongly takes for no ancestor.
-/
import QuantBTC.Node.ArrivalOrder

namespace QuantBTC.Node

set_option autoImplicit false

open Primitives Dag Theory.ParentGraph

/-! ## The selected parent is the best one -/

def IsBest (provider : IGhostdagBlockProvider) (parents : List Uint256) (best : Uint256) : Prop :=
  best ∈ parents ∧ ∀ parent ∈ parents, blueScoreOf provider parent < blueScoreOf provider best ∨
    (blueScoreOf provider parent = blueScoreOf provider best ∧ best ≤ parent)

theorem selectBestParent_isBest (provider : IGhostdagBlockProvider) {parents : List Uint256}
    (nonempty : parents ≠ []) : IsBest provider parents (selectBestParent provider parents) :=
  ⟨selectBestParent_mem provider nonempty, selectBestParent_best provider parents⟩

def NoRedundantParent (provider : IGhostdagBlockProvider) (parents : List Uint256) : Prop :=
  ∀ best, IsBest provider parents best →
    (∀ parent ∈ parents, parent ≠ best → parent ∉ Past provider.getParents best) ∧
      ∀ block ∈ Past provider.getParents best, provider.isAncestorOf block best = true

theorem noRedundantParent_local : Local NoRedundantParent := by
  intro provider other blocks parents agree inside none best isBest
  have bestMem := inside best isBest.1
  have isBest' : IsBest provider parents best := by
    refine ⟨isBest.1, fun parent mem => ?_⟩
    have better := isBest.2 parent mem
    rwa [agree.blueScoreOf_eq (inside parent mem), agree.blueScoreOf_eq bestMem] at better
  have samePast := past_congr agree.closed agree.parents bestMem
  rw [samePast]
  refine ⟨(none best isBest').1, fun block below => ?_⟩
  rw [agree.ancestor block (agree.closed.past_subset bestMem below) best bestMem]
  exact (none best isBest').2 block below

/-! ## The walk -/

inductive BlueWalk (view : DagView) : Uint256 → List Uint256 → Prop where
  | root {hash : Uint256} {entry : DagEntry} (found : view hash = some entry)
      (selected : entry.dagData.selectedParent = 0) : BlueWalk view hash entry.dagData.mergesetBlues
  | step {hash : Uint256} {entry : DagEntry} {rest : List Uint256} (found : view hash = some entry)
      (selected : entry.dagData.selectedParent ≠ 0)
      (walk : BlueWalk view entry.dagData.selectedParent rest) :
      BlueWalk view hash
        (entry.dagData.mergesetBlues ++ entry.dagData.selectedParent :: rest)

structure Distinct (view : DagView) (hash : Uint256) (entry : DagEntry) (walk : List Uint256) :
    Prop where
  isWalk : BlueWalk view hash walk
  nodup : walk.Nodup
  past : ∀ block ∈ walk, block ∈ Past view.getParents hash
  score : entry.dagData.blueScore = walk.length

section Ordered

variable {env : ChainEnv} {headers : Set CBlockHeader}
  {Extra : IGhostdagBlockProvider → List Uint256 → Prop} {node : NodeDag} {order : List Uint256}

variable {hash : Uint256}

theorem Ordered.ne_zero (ordered : Ordered env headers Extra node order) (mem : hash ∈ order) :
    hash ≠ 0 := by
  by_cases genesis : hash = env.hashGenesisBlock
  · rw [genesis]
    exact env.hash_ne_zero _
  · obtain ⟨entry, isEntry⟩ := ordered.found hash mem
    obtain ⟨header, _, rfl, _⟩ := ordered.header hash entry isEntry genesis
    exact env.hash_ne_zero _

theorem merged_not_mem_past {provider : IGhostdagBlockProvider} {parents mergeset : List Uint256}
    {selectedParent block : Uint256} (best : IsBest provider parents selectedParent)
    (none : NoRedundantParent provider parents)
    (merged : IsMergeset provider parents selectedParent mergeset) (mem : block ∈ mergeset) :
    block ≠ selectedParent ∧ block ∉ Past provider.getParents selectedParent := by
  have other : block ≠ selectedParent := by
    rintro rfl
    exact merged.selected mem
  refine ⟨other, fun below => ?_⟩
  rcases merged.kept block mem with listed | notAncestor
  · exact (none _ best).1 block listed other below
  · simp [(none _ best).2 block below] at notAncestor

theorem Ordered.distinct_step (ordered : Ordered env headers NoRedundantParent node order)
    {entry : DagEntry} (mem : hash ∈ order) (isEntry : node.view hash = some entry) (before : ∀
      parent ∈ entry.parents, ∀ parentEntry, node.view parent = some parentEntry → ∃ walk, Distinct
      node.view parent parentEntry walk) : ∃ walk, Distinct node.view hash entry walk := by
  have parentsOf : node.view.getParents hash = entry.parents := by
    rw [DagView.getParents, isEntry]
  rcases computeGhostdag_cases _ (ordered.scored hash mem entry isEntry) with
    ⟨_, unscored⟩ | ⟨nonempty, spData, inherited, mergeset, scored⟩
  · refine ⟨entry.dagData.mergesetBlues, .root isEntry ?_, ?_, ?_, ?_⟩ <;> simp [unscored]
  · have best : IsBest node.view.provider entry.parents entry.dagData.selectedParent :=
      scored.selected ▸ selectBestParent_isBest _ nonempty
    have none := ordered.extra hash mem entry isEntry nonempty
    have merged := computeMergeset_spec scored.merged
    have spMem := ordered.parents_mem mem isEntry _ best.1
    obtain ⟨spEntry, spFound, rfl⟩ := Option.map_eq_some_iff.mp scored.selected_data
    obtain ⟨walk, distinct⟩ := before _ best.1 spEntry spFound
    have inMergeset : ∀ block ∈ entry.dagData.mergesetBlues, block ∈ mergeset := by
      rw [scored.blues]
      exact fun block isBlue => mem_classifyMergeset _ isBlue
    have spPast : entry.dagData.selectedParent ∈ Past node.view.getParents hash :=
      parent_mem_past (parentsOf ▸ best.1)
    refine ⟨_, .step isEntry (ordered.ne_zero spMem) distinct.isWalk, ?_, ?_, ?_⟩
    · refine List.nodup_append.mpr ⟨?_, List.nodup_cons.mpr ⟨?_, distinct.nodup⟩, ?_⟩
      · rw [scored.blues]
        exact nodup_classifyMergeset _ merged.nodup
      · exact fun inWalk => ordered.topological.not_mem_past ordered.nodup spMem
          (distinct.past _ inWalk)
      · rintro block isBlue _ inWalk rfl
        obtain ⟨other, outside⟩ := merged_not_mem_past best none merged (inMergeset block isBlue)
        rcases List.mem_cons.mp inWalk with same | further
        · exact other same
        · exact outside (distinct.past block further)
    · rw [List.forall_mem_append, List.forall_mem_cons]
      refine ⟨fun block isBlue => ?_, spPast, fun block inWalk => ?_⟩
      · rw [mem_past_iff, parentsOf]
        exact merged.reached block (inMergeset block isBlue)
      · exact past_trans spPast (distinct.past block inWalk)
    · rw [scored.score, distinct.score, List.length_append, List.length_cons]
      omega

theorem Ordered.distinct (ordered : Ordered env headers NoRedundantParent node order)
    {entry : DagEntry} (mem : hash ∈ order) (isEntry : node.view hash = some entry) :
    ∃ walk, Distinct node.view hash entry walk := by
  have behind : ∀ rest, rest <:+ order → ∀ hash ∈ rest, ∀ entry, node.view hash = some entry →
      ∃ walk, Distinct node.view hash entry walk := by
    intro rest isSuffix
    induction rest with
    | nil => exact fun hash mem => nomatch mem
    | cons first rest ih =>
      have before := ih ((List.suffix_cons first rest).trans isSuffix)
      rw [List.forall_mem_cons]
      refine ⟨fun entry isEntry => ?_, before⟩
      refine ordered.distinct_step (isSuffix.subset (List.mem_cons_self ..)) isEntry ?_
      intro parent isParent
      cases ordered.topological.suffix isSuffix with
      | cons parentsBehind _ =>
        refine before parent (parentsBehind parent ?_)
        rwa [DagView.getParents, isEntry]
  exact behind order List.suffix_rfl hash mem entry isEntry

end Ordered

def IrredundantBody (env : ChainEnv) (node : NodeDag) (header : CBlockHeader) : Prop :=
  ParentsStored env node header ∧
    (node.stored (env.hashOf header) = true ∨
      NoRedundantParent node.view.provider (header.hashPrevBlock :: dagParents header))

/-- **A blue score counts distinct blocks of the past** when each body, on its arrival, comes
after its parents' bodies, lists no parent in the past of its best parent, and the ancestor
query knows that past. -/
theorem blueScore_counts_distinct (env : ChainEnv) (arrivals : List Arrival)
    (names : HashNames env {header | header ∈ arrivals.map Arrival.carried})
    (irredundant : BodiesMeet env (IrredundantBody env) (.loadGenesisBlock env) arrivals)
    (hash : Uint256) (data : GhostdagData)
    (isStored : (runArrivals env arrivals).storedData hash = some data) :
    let view := (runArrivals env arrivals).blockIndex.dagView
    ∃ walk, BlueWalk view hash walk ∧ walk.Nodup ∧
      (∀ block ∈ walk, block ∈ Past view.getParents hash) ∧
      data.blueScore = walk.length ∧ data.blueScore ≤ (Past view.getParents hash).ncard := by
  intro view
  obtain ⟨stored, entry, isEntry, rfl⟩ := storedData_eq_some isStored
  by_cases dagMode : env.dagMode = true
  · obtain ⟨order, ordered⟩ := ordered_run names noRedundantParent_local dagMode arrivals
      (fun arrival mem => List.mem_map_of_mem mem) irredundant
    have mem := (ordered.mem_iff hash).mpr stored
    obtain ⟨walk, distinct⟩ := ordered.distinct mem isEntry
    refine ⟨walk, distinct.isWalk, distinct.nodup, distinct.past, distinct.score, ?_⟩
    have finite : (Past view.getParents hash).Finite :=
      order.toFinset.finite_toSet.subset fun block below =>
        List.mem_toFinset.mpr (ordered.topological.closed.past_subset mem below)
    calc entry.dagData.blueScore = walk.toFinset.card := by
          rw [distinct.score, List.toFinset_card_of_nodup distinct.nodup]
      _ = (walk.toFinset : Set Uint256).ncard := (Set.ncard_coe_finset _).symm
      _ ≤ (Past view.getParents hash).ncard := by
          refine Set.ncard_le_ncard (fun block inWalk => ?_) finite
          exact distinct.past block (List.mem_toFinset.mp inWalk)
  · have unscored := unscored_run (Bool.eq_false_iff.mpr dagMode) arrivals hash entry isEntry
    refine ⟨entry.dagData.mergesetBlues, .root isEntry ?_, ?_, ?_, ?_, ?_⟩ <;> simp [unscored]

variable {provider : IGhostdagBlockProvider}

theorem noRedundantParent_genesis {genesis : Uint256} (root : provider.getParents genesis = []) :
    NoRedundantParent provider [genesis] := by
  intro best isBest
  obtain rfl := List.mem_singleton.mp isBest.1
  simp [past_of_no_parents root]

theorem noRedundantParent_siblings (genesis : Uint256) {best sibling : Uint256}
    (root : provider.getParents genesis = []) (onGenesis : provider.getParents best = [genesis])
    (worse : blueScoreOf provider sibling = blueScoreOf provider best ∧ best < sibling)
    (other : sibling ≠ genesis) (ancestor : provider.isAncestorOf genesis best = true) :
    NoRedundantParent provider [best, sibling] := by
  intro chosen isBest
  have notSibling : chosen ≠ sibling := by
    rintro rfl
    have better := isBest.2 best (List.mem_cons_self ..)
    grind
  obtain rfl : chosen = best := by simpa [notSibling] using isBest.1
  rw [past_of_single_parent onGenesis, past_of_no_parents root]
  grind

/-- The merge of two siblings over genesis counts its three blocks. -/
theorem blueScore_counts_siblings : ∃ data,
    (runArrivals nonceChain bodiesOnly).storedData 4 = some data ∧ data.blueScore = 3 ∧
      3 ≤ (Past (runArrivals nonceChain bodiesOnly).blockIndex.dagView.getParents 4).ncard := by
  have names : HashNames nonceChain
      {header | header ∈ bodiesOnly.map Arrival.carried} := by decide +kernel
  have irredundant : BodiesMeet nonceChain (IrredundantBody nonceChain)
      (.loadGenesisBlock nonceChain) bodiesOnly := by
    obtain ⟨first, second, third, -⟩ := parentsFirst_bodiesOnly
    refine And.intro ⟨first, .inr (noRedundantParent_genesis (by decide +kernel))⟩ (And.intro
      ⟨second, .inr (noRedundantParent_genesis (by decide +kernel))⟩
      (And.intro ⟨third, .inr ?_⟩ trivial))
    refine noRedundantParent_siblings 1 ?_ ?_ ?_ ?_ ?_ <;> decide +kernel
  have isStored : (runArrivals nonceChain bodiesOnly).storedData 4 = some ⟨3, 2, [3], [], 2⟩ := by
    decide +kernel
  obtain ⟨walk, -, -, -, -, bound⟩ := blueScore_counts_distinct nonceChain bodiesOnly names
    irredundant 4 _ isStored
  exact ⟨_, isStored, rfl, bound⟩

/-- Block `4` extends `3` and lists genesis as an extra parent, which is blue again. -/
theorem blueScore_above_past :
    let chainman := runArrivals nonceChain [requestedBody (nonceBlock 1 1 []),
      requestedBody (nonceBlock 2 2 []), requestedBody (nonceBlock 3 3 [1])]
    (∃ data, chainman.storedData 4 = some data ∧ data.blueScore = 4) ∧
      Past chainman.blockIndex.dagView.getParents 4 = {1, 2, 3} := by
  have sets : (insert 3 (insert 2 (insert 1 ∅)) ∪ insert 1 ∅ : Set Uint256) = {1, 2, 3} := by
    ext block
    simp only [Set.mem_union, Set.mem_insert_iff, Set.mem_singleton_iff, Set.mem_empty_iff_false]
    tauto
  intro chainman
  have root : chainman.blockIndex.dagView.getParents 1 = [] := by decide +kernel
  have two : chainman.blockIndex.dagView.getParents 2 = [1] := by decide +kernel
  have three : chainman.blockIndex.dagView.getParents 3 = [2] := by decide +kernel
  have four : chainman.blockIndex.dagView.getParents 4 = [3, 1] := by decide +kernel
  refine ⟨⟨⟨4, 3, [1], [], 2⟩, by decide +kernel, rfl⟩, ?_⟩
  rw [past_of_two_parents four, past_of_single_parent three, past_of_single_parent two,
    past_of_no_parents root, sets]

end QuantBTC.Node
