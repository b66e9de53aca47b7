/-
# Dag.Cluster -- is what a block treats as blue a K-cluster?

The blue set of a block is its selected-parent chain with the blue merges along it.
GHOSTDAG admits a candidate when it and every blue block in its anticone keep at most
`K` blue blocks in theirs.  `ClassifyMergeset` counts the candidate's own anticone only,
and over the last blocks of the chain instead of the whole blue set.
-/
import QuantBTC.Dag.Build
import QuantBTC.Theory.Cluster

namespace QuantBTC.Dag.BlockDag

set_option autoImplicit false

open Primitives Theory.ParentGraph Theory.Cluster

def Related (dag : BlockDag) (a b : Uint256) : Prop := a ∈ dag.pastOf b ∨ b ∈ dag.pastOf a

instance (dag : BlockDag) : DecidableRel dag.Related :=
  fun _ _ => inferInstanceAs (Decidable (_ ∨ _))

theorem Related.symm {dag : BlockDag} (a b : Uint256) (related : dag.Related a b) :
    dag.Related b a :=
  Or.comm.mp related

def blueSet : BlockDag → Uint256 → Finset Uint256
  | [], _ => ∅
  | block :: rest, hash =>
    if block.hash = hash then
      (if block.data.selectedParent = 0 then ∅
        else insert block.data.selectedParent (blueSet rest block.data.selectedParent))
      ∪ block.data.mergesetBlues.toFinset
    else blueSet rest hash

def chainBlues (dag : BlockDag) (selectedParent : Uint256) : Finset Uint256 :=
  if selectedParent = 0 then ∅ else insert selectedParent (dag.blueSet selectedParent)

def Admits (k : Nat) (dag : BlockDag) (blues : Finset Uint256) (candidate : Uint256) : Prop :=
  (anticone dag.Related candidate blues).card ≤ k ∧
    ∀ blue ∈ anticone dag.Related candidate blues, (anticone dag.Related blue blues).card < k

def TestsAgree (k : Nat) (dag : BlockDag) :
    List Uint256 → Finset Uint256 → List Uint256 → Prop
  | _, _, [] => True
  | currentBlues, blues, candidate :: rest =>
    if antiConeBlueCount dag.provider candidate currentBlues ≤ k then
      (candidate ∈ blues ∨ Admits k dag blues candidate) ∧
        TestsAgree k dag (currentBlues ++ [candidate]) (insert candidate blues) rest
    else TestsAgree k dag currentBlues blues rest

def ClusterTest (k : Nat) (dag : BlockDag) (parents : List Uint256) : Prop :=
  let selectedParent := selectBestParent dag.provider parents
  ∀ inherited mergeset, inheritedBlues dag.provider (2 * k + 1) selectedParent = some inherited →
    computeMergeset dag.provider parents selectedParent = some mergeset →
    TestsAgree k dag inherited (dag.chainBlues selectedParent) mergeset

/-! ## One merge -/

theorem testsAgree_iff {k : Nat} {dag : BlockDag} {currentBlues mergeset : List Uint256}
    {blues : Finset Uint256} (cluster : KCluster dag.Related k blues) :
    TestsAgree k dag currentBlues blues mergeset ↔
      KCluster dag.Related k
        (blues ∪ (classifyMergeset dag.provider k currentBlues mergeset).1.toFinset) := by
  induction mergeset generalizing currentBlues blues with
  | nil =>
    rw [TestsAgree, classifyMergeset, List.toFinset_nil, Finset.union_empty]
    exact iff_of_true trivial cluster
  | cons candidate rest ih =>
    rw [TestsAgree, classifyMergeset]
    split
    · rw [List.toFinset_cons, Finset.union_insert, ← Finset.insert_union]
      by_cases mem : candidate ∈ blues
      · rw [Finset.insert_eq_self.mpr mem, ih cluster]
        exact and_iff_right (.inl mem)
      · have grown : KCluster dag.Related k (insert candidate blues) ↔
            KCluster dag.Related k blues ∧ Admits k dag blues candidate :=
          kCluster_insert_iff Related.symm mem
        constructor
        · grind
        · intro whole
          have cluster' := whole.mono Finset.subset_union_left
          exact ⟨.inr (grown.mp cluster').2, (ih cluster').mpr whole⟩
    · exact ih cluster

/-! ## Where the blue blocks are -/

section Built

variable {k : Nat} {Meets : BlockDag → List Uint256 → Prop} {dag : BlockDag}

theorem blueSet_cons_self (block : DagBlock) (dag : BlockDag) :
    blueSet (block :: dag) block.hash
      = dag.chainBlues block.data.selectedParent ∪ block.data.mergesetBlues.toFinset := by
  rw [blueSet, if_pos rfl]
  rfl

variable {block : DagBlock} {hash : Uint256}

theorem blueSet_cons_of_mem (isNew : block.hash ∉ dag.hashes) (mem : hash ∈ dag.hashes) :
    blueSet (block :: dag) hash = dag.blueSet hash := by
  rw [blueSet, if_neg fun same : block.hash = hash => isNew (same ▸ mem)]

variable {parents : List Uint256}

theorem Built.reached_iff (built : Built k Meets dag)
    (known : ∀ parent ∈ parents, parent ∈ dag.hashes) :
    Reached dag.provider parents hash ↔
      hash ∈ parents.toFinset.biUnion fun parent => insert parent (dag.pastOf parent) := by
  simp only [Reached, Finset.mem_biUnion, List.mem_toFinset, Finset.mem_insert]
  refine exists_congr fun parent => and_congr_right fun mem => or_congr_right ?_
  exact (built.mem_pastOf_iff (known parent mem)).symm

theorem Built.pastOf_subset (built : Built k Meets dag) {other : Uint256} (mem : hash ∈ dag.hashes)
    (inPast : other ∈ dag.pastOf hash) : other ∈ dag.hashes :=
  built.topological.closed.past_subset mem ((built.mem_pastOf_iff mem).mp inPast)

theorem Built.blues_reached (built : Built k Meets dag)
    (inPast : ∀ hash ∈ dag.hashes, dag.blueSet hash ⊆ dag.pastOf hash) {data : GhostdagData}
    (known : ∀ parent ∈ parents, parent ∈ dag.hashes)
    (computed : computeGhostdag dag.provider k parents = some data)
    (blue : hash ∈ dag.chainBlues data.selectedParent ∪ data.mergesetBlues.toFinset) :
    Reached dag.provider parents hash := by
  rcases computeGhostdag_cases _ computed with ⟨_, rfl⟩ | ⟨nonempty, spData, inherited, mergeset, scored⟩
  · simp [chainBlues] at blue
  · have spMem : data.selectedParent ∈ parents :=
      scored.selected ▸ selectBestParent_mem _ nonempty
    have spKnown := known _ spMem
    rcases Finset.mem_union.mp blue with chain | merged
    · rw [chainBlues, if_neg (built.ne_zero spKnown), Finset.mem_insert] at chain
      rcases chain with rfl | inherited
      · exact ⟨_, spMem, .inl rfl⟩
      · have below := inPast _ spKnown inherited
        exact ⟨_, spMem, .inr ((built.mem_pastOf_iff spKnown).mp below)⟩
    · rw [List.mem_toFinset, scored.blues] at merged
      exact (computeMergeset_spec scored.merged).reached _ (mem_classifyMergeset _ merged)

theorem Built.blueSet_subset_pastOf (built : Built k Meets dag) :
    ∀ hash ∈ dag.hashes, dag.blueSet hash ⊆ dag.pastOf hash := by
  induction built with
  | empty => exact fun hash mem => nomatch mem
  | @add dag _ newHash parents work built _ added ih =>
    obtain ⟨_, isNew, known, data, computed, rfl⟩ := add_cases added
    intro hash mem blue isBlue
    rcases List.mem_cons.mp mem with rfl | old
    · rw [blueSet_cons_self] at isBlue
      rw [pastOf_cons_self]
      exact (built.reached_iff known).mp (built.blues_reached ih known computed isBlue)
    · rw [blueSet_cons_of_mem isNew old] at isBlue
      rw [pastOf_cons_of_mem isNew old]
      exact ih hash old isBlue

/-! ## Whole builds -/

theorem related_cons_iff (isNew : block.hash ∉ dag.hashes) {a b : Uint256} (aMem : a ∈ dag.hashes)
    (bMem : b ∈ dag.hashes) : Related (block :: dag) a b ↔ dag.Related a b := by
  rw [Related, Related, pastOf_cons_of_mem isNew aMem, pastOf_cons_of_mem isNew bMem]

theorem kCluster_cons_iff (isNew : block.hash ∉ dag.hashes) {blues : Finset Uint256}
    (known : ∀ blue ∈ blues, blue ∈ dag.hashes) :
    KCluster (Related (block :: dag)) k blues ↔ KCluster dag.Related k blues := by
  constructor
  · exact fun cluster => cluster.congr fun a aMem b bMem =>
      (related_cons_iff isNew (known a aMem) (known b bMem)).symm
  · exact fun cluster => cluster.congr fun a aMem b bMem =>
      related_cons_iff isNew (known a aMem) (known b bMem)

theorem Built.chainBlues_kCluster (built : Built k Meets dag) {selectedParent : Uint256}
    (known : selectedParent ∈ dag.hashes)
    (cluster : KCluster dag.Related k (dag.blueSet selectedParent)) :
    KCluster dag.Related k (dag.chainBlues selectedParent) := by
  rw [chainBlues, if_neg (built.ne_zero known)]
  refine cluster.insert_related Related.symm fun blue isBlue => ?_
  exact .inr (built.blueSet_subset_pastOf _ known isBlue)

theorem Built.clusterTest_iff (built : Built k Meets dag)
    (clusters : ∀ hash ∈ dag.hashes, KCluster dag.Related k (dag.blueSet hash))
    {data : GhostdagData} (known : ∀ parent ∈ parents, parent ∈ dag.hashes)
    (computed : computeGhostdag dag.provider k parents = some data) :
    ClusterTest k dag parents ↔ KCluster dag.Related k
      (dag.chainBlues data.selectedParent ∪ data.mergesetBlues.toFinset) := by
  rcases computeGhostdag_cases _ computed with
    ⟨rfl, rfl⟩ | ⟨nonempty, spData, inherited, mergeset, scored⟩
  · -- a block without parents has an empty mergeset
    refine iff_of_true ?_ ?_
    · intro inherited mergeset _ merged
      obtain rfl : [] = mergeset := Option.some.inj merged
      exact trivial
    · intro blue isBlue
      simp [chainBlues] at isBlue
  · have spKnown : data.selectedParent ∈ dag.hashes :=
      known _ (scored.selected ▸ selectBestParent_mem _ nonempty)
    have chain := built.chainBlues_kCluster spKnown (clusters _ spKnown)
    rw [ClusterTest, ← scored.selected, scored.blues, ← testsAgree_iff chain]
    constructor
    · exact fun agree => agree inherited mergeset scored.chain scored.merged
    · intro agree inherited' mergeset' chained merged
      cases scored.chain.symm.trans chained
      cases scored.merged.symm.trans merged
      exact agree

end Built

def mergedSiblings : BlockDag :=
  [ { hash := 6, parents := [5, 4], data := ⟨5, 5, [4], [], 2⟩ },
    { hash := 5, parents := [2, 3], data := ⟨3, 2, [3], [], 1⟩ },
    { hash := 4, parents := [2], data := ⟨2, 2, [], [], 0⟩ },
    { hash := 3, parents := [1], data := ⟨1, 1, [], [], 0⟩ },
    { hash := 2, parents := [1], data := ⟨1, 1, [], [], 0⟩ },
    { hash := 1, parents := [] } ]

theorem built_firstMerge : Built 1 (fun _ _ => True) (mergedSiblings.drop 1) := by
  have genesis : Built 1 (fun _ _ => True) (mergedSiblings.drop 5) :=
    .add 1 [] 1 .empty trivial (by decide +kernel)
  have first : Built 1 (fun _ _ => True) (mergedSiblings.drop 4) :=
    .add 2 [1] 1 genesis trivial (by decide +kernel)
  have second : Built 1 (fun _ _ => True) (mergedSiblings.drop 3) :=
    .add 3 [1] 1 first trivial (by decide +kernel)
  have side : Built 1 (fun _ _ => True) (mergedSiblings.drop 2) :=
    .add 4 [2] 1 second trivial (by decide +kernel)
  exact .add 5 [2, 3] 1 side trivial (by decide +kernel)

end QuantBTC.Dag.BlockDag
