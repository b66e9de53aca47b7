/-
# Dag.ScoreOrder -- the order of the blue scores is topological

A block scores one more than its best parent at least, so along every path the scores rise.
Whatever is sorted by score and hash has ancestors in front of descendants: the lists that
`ComputeMergeset` returns, and the result of `TopologicalOrder`, which therefore is the plain
sort of its blocks.
-/
import QuantBTC.Dag.Build
import QuantBTC.Dag.TopologicalOrder

namespace QuantBTC.Dag

set_option autoImplicit false

open Primitives Theory.ParentGraph

/-! ## Sorting by score and hash -/

section Sorting

variable {score : Uint256 → Nat}

theorem scoreOrder_iff {a b : Uint256} :
    ScoreOrder score a b ↔ toLex (score a, a) ≤ toLex (score b, b) := by
  rw [Prod.Lex.toLex_le_toLex]
  rfl

instance : Std.Total (ScoreOrder score) where
  total a b := by
    simp only [scoreOrder_iff]
    exact le_total _ _

instance : IsTrans Uint256 (ScoreOrder score) where
  trans a b c := by
    simp only [scoreOrder_iff]
    exact le_trans

instance : Std.Antisymm (ScoreOrder score) where
  antisymm a b := by
    simp only [scoreOrder_iff]
    exact fun low high => congrArg (fun pair => (ofLex pair).2) (le_antisymm low high)

end Sorting

theorem computeMergeset_sorted {provider : IGhostdagBlockProvider} {parents mergeset : List Uint256}
    {selectedParent : Uint256}
    (computed : computeMergeset provider parents selectedParent = some mergeset) :
    mergeset.Pairwise (ScoreOrder (blueScoreOf provider)) := by
  obtain ⟨out, _, rfl⟩ := Option.map_eq_some_iff.mp computed
  exact List.pairwise_insertionSort _ out

/-! ## Scores rise -/

theorem computeGhostdag_score_lt {provider : IGhostdagBlockProvider} {k : Nat}
    {parents : List Uint256} {data : GhostdagData}
    (computed : computeGhostdag provider k parents = some data) {parent : Uint256}
    (mem : parent ∈ parents) : blueScoreOf provider parent < data.blueScore := by
  rcases computeGhostdag_cases _ computed with ⟨rfl, _⟩ | ⟨_, spData, inherited, mergeset, scored⟩
  · cases mem
  · have best := selectBestParent_best provider parents parent mem
    have selected : blueScoreOf provider (selectBestParent provider parents) = spData.blueScore := by
      rw [← scored.selected, blueScoreOf, scored.selected_data]
    have score := scored.score
    omega

namespace BlockDag

variable {k : Nat} {Meets : BlockDag → List Uint256 → Prop} {dag : BlockDag}

theorem getGhostdagData_cons_self (block : DagBlock) (dag : BlockDag) :
    (provider (block :: dag)).getGhostdagData block.hash = some block.data := by
  simp [provider]

theorem getGhostdagData_cons_of_mem {block : DagBlock} {hash : Uint256}
    (isNew : block.hash ∉ dag.hashes) (mem : hash ∈ dag.hashes) :
    (provider (block :: dag)).getGhostdagData hash = dag.provider.getGhostdagData hash := by
  grind [provider, find_cons_of_ne]

theorem blueScoreOf_cons_of_mem {block : DagBlock} {hash : Uint256}
    (isNew : block.hash ∉ dag.hashes) (mem : hash ∈ dag.hashes) :
    blueScoreOf (provider (block :: dag)) hash = blueScoreOf dag.provider hash := by
  rw [blueScoreOf, blueScoreOf, getGhostdagData_cons_of_mem isNew mem]

theorem blueScoreOf_cons_self (block : DagBlock) (dag : BlockDag) :
    blueScoreOf (provider (block :: dag)) block.hash = block.data.blueScore := by
  rw [blueScoreOf, getGhostdagData_cons_self]

theorem Built.score_parent_lt (built : Built k Meets dag) {hash parent : Uint256}
    (mem : hash ∈ dag.hashes) (edge : parent ∈ dag.parentsOf hash) :
    blueScoreOf dag.provider parent < blueScoreOf dag.provider hash := by
  induction built generalizing hash with
  | empty => cases mem
  | @add dag _ newHash parents work built _ added ih =>
    obtain ⟨_, isNew, known, data, computed, rfl⟩ := add_cases added
    rcases List.mem_cons.mp mem with rfl | old
    · rw [parentsOf_cons_self] at edge
      rw [blueScoreOf_cons_self, blueScoreOf_cons_of_mem isNew (known parent edge)]
      exact computeGhostdag_score_lt computed edge
    · rw [parentsOf_cons_of_mem isNew old] at edge
      have parentOld := built.topological.closed hash old parent edge
      rw [blueScoreOf_cons_of_mem isNew old, blueScoreOf_cons_of_mem isNew parentOld]
      exact ih old edge

theorem Built.score_past_lt (built : Built k Meets dag) {hash other : Uint256}
    (mem : hash ∈ dag.hashes) (reached : other ∈ Past dag.parentsOf hash) :
    blueScoreOf dag.provider other < blueScoreOf dag.provider hash := by
  induction reached with
  | single edge => exact built.score_parent_lt mem edge
  | tail before edge ih =>
    have middleMem := built.topological.closed.past_subset mem before
    exact (built.score_parent_lt middleMem edge).trans ih

theorem Built.acyclic (built : Built k Meets dag) {hash : Uint256} (mem : hash ∈ dag.hashes) :
    hash ∉ Past dag.parentsOf hash :=
  fun cycle => lt_irrefl _ (built.score_past_lt mem cycle)

theorem Built.selected (built : Built k Meets dag) {hash : Uint256} (mem : hash ∈ dag.hashes) :
    ∃ data, dag.provider.getGhostdagData hash = some data ∧
      (data.selectedParent = 0 ∨ data.selectedParent ∈ dag.parentsOf hash) := by
  induction built with
  | empty => cases mem
  | @add dag _ newHash parents work built _ added ih =>
    obtain ⟨_, isNew, _, data, computed, rfl⟩ := add_cases added
    rcases List.mem_cons.mp mem with rfl | old
    · rw [getGhostdagData_cons_self, parentsOf_cons_self]
      refine ⟨data, rfl, ?_⟩
      rcases computeGhostdag_cases _ computed with ⟨_, rfl⟩ | ⟨nonempty, _, _, _, scored⟩
      · exact .inl rfl
      · exact .inr (scored.selected ▸ selectBestParent_mem _ nonempty)
    · rw [getGhostdagData_cons_of_mem isNew old, parentsOf_cons_of_mem isNew old]
      exact ih old

theorem Built.pairwise_of_sorted (built : Built k Meets dag) {blocks : List Uint256}
    (sorted : blocks.Pairwise (ScoreOrder (blueScoreOf dag.provider))) :
    blocks.Pairwise fun earlier later => later ∉ Past dag.parentsOf earlier := by
  apply sorted.imp
  intro earlier later ordered reached
  by_cases known : earlier ∈ dag.hashes
  · have above := built.score_past_lt known reached
    unfold ScoreOrder at ordered
    omega
  · rw [past_of_no_parents (parentsOf_of_notMem known)] at reached
    exact reached

theorem Built.topologicalOrder_eq_sort (built : Built k Meets dag)
    {allBlocks degreeOrder : List Uint256} (isSet : allBlocks.Nodup)
    (sameKeys : degreeOrder.Perm allBlocks) (known : ∀ h ∈ allBlocks, h ∈ dag.hashes) :
    topologicalOrder dag.provider allBlocks degreeOrder
      = allBlocks.insertionSort (ScoreOrder (blueScoreOf dag.provider)) := by
  obtain ⟨greedy, complete⟩ := @topologicalOrder_greedy dag.provider _ isSet _ sameKeys
  have listed := complete fun h mem => built.acyclic (known h mem)
  have smaller : ∀ h ∈ allBlocks.toFinset, ∀ parent ∈ dag.provider.getParents h,
      parent ∈ allBlocks.toFinset → entryOf dag.provider parent < entryOf dag.provider h := by
    intro h mem parent edge _
    apply Prod.Lex.toLex_lt_toLex.mpr
    exact .inl (built.score_parent_lt (known h (List.mem_toFinset.mp mem)) edge)
  have sorted : (topologicalOrder dag.provider allBlocks degreeOrder).Pairwise
      (ScoreOrder (blueScoreOf dag.provider)) := by
    apply (greedy.pairwise_key smaller).imp
    exact fun ordered => entryOf_le_iff.mp ordered
  have perm : (topologicalOrder dag.provider allBlocks degreeOrder).Perm allBlocks := by
    apply (List.perm_ext_iff_of_nodup greedy.nodup isSet).mpr
    exact fun h => ⟨fun mem => List.mem_toFinset.mp (greedy.mem_nodes mem), listed h⟩
  exact List.Perm.eq_of_pairwise' sorted (List.pairwise_insertionSort _ _)
    (perm.trans (List.perm_insertionSort _ _).symm)

end BlockDag

/-- **The score order is topological.**  In every DAG scored parents first with
`ComputeGhostdag`, the score of a block is above those of all blocks in its past; a list that
`ComputeMergeset` returns, for whatever parents, has no block behind one of its descendants; and
`TopologicalOrder` of any set of its blocks is that set sorted by score and hash. -/
theorem scoreOrder_topological (k : Nat) (dag : BlockDag)
    (built : dag.Built k (fun _ _ => True)) :
    (∀ hash ∈ dag.hashes, ∀ other ∈ Past dag.parentsOf hash,
      blueScoreOf dag.provider other < blueScoreOf dag.provider hash) ∧
    (∀ parents selectedParent mergeset,
      computeMergeset dag.provider parents selectedParent = some mergeset →
      mergeset.Pairwise fun earlier later => later ∉ Past dag.parentsOf earlier) ∧
    (∀ allBlocks degreeOrder : List Uint256, allBlocks.Nodup → degreeOrder.Perm allBlocks →
      (∀ h ∈ allBlocks, h ∈ dag.hashes) →
      topologicalOrder dag.provider allBlocks degreeOrder
        = allBlocks.insertionSort (ScoreOrder (blueScoreOf dag.provider))) := by
  refine ⟨?_, ?_, ?_⟩
  · intro hash mem other reached
    exact built.score_past_lt mem reached
  · intro parents selectedParent mergeset computed
    exact built.pairwise_of_sorted (computeMergeset_sorted computed)
  · intro allBlocks degreeOrder isSet sameKeys known
    exact built.topologicalOrder_eq_sort isSet sameKeys known

def scoredDiamond : BlockDag :=
  [ { hash := 4, parents := [3, 2], data := ⟨3, 2, [3], [], 1⟩ },
    { hash := 2, parents := [1], data := ⟨1, 1, [], [], 0⟩ },
    { hash := 3, parents := [1], data := ⟨1, 1, [], [], 0⟩ },
    { hash := 1, parents := [] } ]

theorem built_scoredDiamond : BlockDag.Built 1 (fun _ _ => True) scoredDiamond := by
  have genesis : BlockDag.Built 1 (fun _ _ => True) (scoredDiamond.drop 3) :=
    .add 1 [] 1 .empty trivial (by decide +kernel)
  have first : BlockDag.Built 1 (fun _ _ => True) (scoredDiamond.drop 2) :=
    .add 3 [1] 1 genesis trivial (by decide +kernel)
  have second : BlockDag.Built 1 (fun _ _ => True) (scoredDiamond.drop 1) :=
    .add 2 [1] 1 first trivial (by decide +kernel)
  exact .add 4 [3, 2] 1 second trivial (by decide +kernel)

/-- The diamond without genesis, in the order of the scores. -/
theorem scoreOrder_scoredDiamond :
    topologicalOrder scoredDiamond.provider [4, 3, 2] [3, 4, 2] = [2, 3, 4] := by
  rw [(scoreOrder_topological 1 scoredDiamond built_scoredDiamond).2.2 [4, 3, 2] [3, 4, 2]
    (by decide) (by decide) (by simp [BlockDag.hashes, scoredDiamond])]
  decide +kernel

end QuantBTC.Dag
