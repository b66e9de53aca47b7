/-
# Dag.Overflow -- when is a mergeset too large?

`ComputeMergeset` should refuse a block whose mergeset exceeds `MAX_MERGESET_SIZE`.  It compares
with `>=` where the contract says "exceeds", it counts listed parents that are in the past of
the selected parent, and it compares only after a block was expanded.
-/
import QuantBTC.Dag.Search

namespace QuantBTC.Dag

set_option autoImplicit false

open Primitives Theory.ParentGraph

variable (provider : IGhostdagBlockProvider) (parents : List Uint256) (selectedParent : Uint256)

def trueMergeset : Set Uint256 :=
  {block | Reached provider parents block ∧ block ≠ selectedParent ∧
    block ∉ Past provider.getParents selectedParent}

def listedAncestors : Finset Uint256 :=
  parents.toFinset.filter fun parent =>
    parent ≠ selectedParent ∧ provider.isAncestorOf parent selectedParent = true

variable {provider parents selectedParent}

/-! ## What is kept -/

variable {block : Uint256}

theorem Visited.reached (visited : Visited provider parents selectedParent block) :
    Reached provider parents block := by
  induction visited with
  | listed mem _ => exact ⟨_, mem, .inl rfl⟩
  | parent _ _ edge _ _ ih => exact ih.parent edge

theorem notAncestor_iff (reach : Reachability provider) (other : block ≠ selectedParent) :
    provider.isAncestorOf block selectedParent = false ↔
      block ∉ Past provider.getParents selectedParent := by
  rw [← Bool.not_eq_true, reach.ancestor block selectedParent other]

theorem visited_of_mem (reach : Reachability provider)
    (mem : block ∈ trueMergeset provider parents selectedParent) :
    Visited provider parents selectedParent block := by
  obtain ⟨⟨root, listed, path⟩, other, outside⟩ := mem
  have walk : ∀ node, Relation.ReflTransGen (Edge provider.getParents) root node →
      node ≠ selectedParent → node ∉ Past provider.getParents selectedParent →
      Visited provider parents selectedParent node := by
    intro node path
    induction path with
    | refl => exact fun other _ => .listed listed other
    | @tail middle last _ edge ih =>
      intro other outside
      have middleOther : middle ≠ selectedParent := by
        rintro rfl
        exact outside (parent_mem_past edge)
      have middleOutside : middle ∉ Past provider.getParents selectedParent :=
        fun below => outside (past_trans below (parent_mem_past edge))
      refine .parent (ih middleOther middleOutside)
        ((notAncestor_iff reach middleOther).mpr middleOutside) edge ?_ other
      rintro rfl
      exact reach.notNull middle edge
  apply walk block _ other outside
  rcases path with rfl | below
  · exact .refl
  · exact below.to_reflTransGen

theorem kept_eq (reach : Reachability provider) :
    kept provider parents selectedParent
      = trueMergeset provider parents selectedParent
        ∪ (listedAncestors provider parents selectedParent : Set Uint256) := by
  ext block
  constructor
  · rintro ⟨visited, cause⟩
    have other := visited.ne_selected
    by_cases ancestor : provider.isAncestorOf block selectedParent = true
    · refine .inr ?_
      have listed := cause.resolve_right (by rw [ancestor]; decide)
      simp [listedAncestors, listed, other, ancestor]
    · rw [Bool.not_eq_true] at ancestor
      exact .inl ⟨visited.reached, other, (notAncestor_iff reach other).mp ancestor⟩
  · rintro (mem | mem)
    · exact ⟨visited_of_mem reach mem, .inr ((notAncestor_iff reach mem.2.1).mpr mem.2.2)⟩
    · have listed : block ∈ parents ∧ block ≠ selectedParent ∧
          provider.isAncestorOf block selectedParent = true := by
        simpa [listedAncestors] using mem
      exact ⟨.listed listed.1 listed.2.1, .inl listed.1⟩

theorem encard_kept (reach : Reachability provider) :
    (kept provider parents selectedParent).encard
      = (trueMergeset provider parents selectedParent).encard
        + (listedAncestors provider parents selectedParent).card := by
  rw [kept_eq reach, Set.encard_union_eq, Set.encard_coe_eq_coe_finsetCard]
  rw [Set.disjoint_left]
  intro block mem listed
  have ancestor : block ∈ parents ∧ block ≠ selectedParent ∧
      provider.isAncestorOf block selectedParent = true := by
    simpa [listedAncestors] using listed
  rw [(notAncestor_iff reach mem.2.1).mpr mem.2.2] at ancestor
  exact absurd ancestor.2.2 (by decide)

theorem expands_iff (reach : Reachability provider) :
    Expands provider parents selectedParent ↔
      (trueMergeset provider parents selectedParent).Nonempty := by
  constructor
  · rintro ⟨parent, listed, other, notAncestor⟩
    exact ⟨parent, ⟨parent, listed, .inl rfl⟩, other, (notAncestor_iff reach other).mp notAncestor⟩
  · rintro ⟨block, mem⟩
    exact (visited_of_mem reach mem).expands ((notAncestor_iff reach mem.2.1).mpr mem.2.2)

theorem computeMergeset_refuses_iff (reach : Reachability provider) :
    computeMergeset provider parents selectedParent = none ↔
      (trueMergeset provider parents selectedParent).Nonempty ∧
        (maxMergesetSize : ℕ∞) ≤ (trueMergeset provider parents selectedParent).encard
          + (listedAncestors provider parents selectedParent).card := by
  rw [computeMergeset_eq_none_iff, encard_kept reach, expands_iff reach]

/-! ## The verdict -/

/-- **The overflow verdict is exact exactly when** the mergeset is empty, or fits below the cap
together with the listed ancestors of the selected parent, or exceeds the cap. -/
theorem computeMergeset_overflow_iff (provider : IGhostdagBlockProvider)
    (reach : Reachability provider) (parents : List Uint256) (selectedParent : Uint256) :
    (computeMergeset provider parents selectedParent = none ↔
      (maxMergesetSize : ℕ∞) < (trueMergeset provider parents selectedParent).encard) ↔
    (trueMergeset provider parents selectedParent = ∅ ∨
      (trueMergeset provider parents selectedParent).encard
        + (listedAncestors provider parents selectedParent).card < maxMergesetSize ∨
      (maxMergesetSize : ℕ∞) < (trueMergeset provider parents selectedParent).encard) := by
  rw [computeMergeset_refuses_iff reach, ← Set.not_nonempty_iff_eq_empty]
  generalize hm : (trueMergeset provider parents selectedParent).encard = merged
  have empty : ¬ (trueMergeset provider parents selectedParent).Nonempty →
      ¬ (maxMergesetSize : ℕ∞) < merged := by
    intro none
    rw [← hm, Set.not_nonempty_iff_eq_empty.mp none, Set.encard_empty]
    exact not_lt_bot
  have more : (maxMergesetSize : ℕ∞) < merged → (maxMergesetSize : ℕ∞)
      ≤ merged + (listedAncestors provider parents selectedParent).card :=
    fun large => large.le.trans le_self_add
  grind

/-! ## Two branches -/

def branchParents (hash : Uint256) : List Uint256 :=
  if hash.val ≤ 1 ∨ 2002 < hash.val then []
  else if hash.val ≤ 3 then [1]
  else [Fin.ofNat (2 ^ 256) (hash.val - 2)]

def FurtherDown (a b : Uint256) : Prop :=
  a.val < b.val ∧ b.val ≤ 2002 ∧ (a.val = 1 ∨ (2 ≤ a.val ∧ a.val % 2 = b.val % 2))

instance (a b : Uint256) : Decidable (FurtherDown a b) :=
  inferInstanceAs (Decidable (_ ∧ _))

def twoBranches : IGhostdagBlockProvider where
  getGhostdagData hash :=
    some { blueScore := hash.val / 2, selectedParent := (branchParents hash).headD 0 }
  getParents := branchParents
  isAncestorOf a b := decide (FurtherDown a b)
  getBlockWork _ := 1

theorem mem_branchParents {parent hash : Uint256} :
    parent ∈ branchParents hash ↔ 2 ≤ hash.val ∧ hash.val ≤ 2002 ∧
      ((hash.val ≤ 3 ∧ parent.val = 1) ∨ (4 ≤ hash.val ∧ parent.val + 2 = hash.val)) := by
  have small := hash.isLt
  unfold branchParents
  split
  next outside =>
    refine iff_of_false List.not_mem_nil ?_
    omega
  next inside =>
    split
    next low =>
      rw [List.mem_singleton, Fin.ext_iff]
      change parent.val = 1 ↔ _
      omega
    · grind

theorem mem_past_branchParents {a b : Uint256} :
    a ∈ Past branchParents b ↔ FurtherDown a b := by
  constructor
  · intro path
    induction path with
    | single edge =>
      have known := mem_branchParents.mp edge
      unfold FurtherDown
      omega
    | tail _ edge ih =>
      have known := mem_branchParents.mp edge
      unfold FurtherDown at ih ⊢
      omega
  · intro down
    induction height : b.val using Nat.strong_induction_on generalizing b with
    | _ n ih =>
      have bound := b.isLt
      unfold FurtherDown at down
      by_cases low : b.val ≤ 3
      · apply parent_mem_past
        rw [mem_branchParents]
        omega
      · let parent : Uint256 := Fin.ofNat (2 ^ 256) (b.val - 2)
        have value : parent.val = b.val - 2 := by
          rw [Fin.val_ofNat, Nat.mod_eq_of_lt (by omega)]
        have edge : parent ∈ branchParents b := by
          rw [mem_branchParents]
          omega
        by_cases same : a = parent
        · exact same ▸ parent_mem_past edge
        · have apart : a.val ≠ parent.val := fun equal => same (Fin.ext equal)
          refine past_trans (parent_mem_past edge) (ih parent.val (by omega) ?_ rfl)
          unfold FurtherDown
          omega

theorem twoBranches_reachability : Reachability twoBranches where
  ancestor a b _ := by
    change decide (FurtherDown a b) = true ↔ a ∈ Past branchParents b
    rw [decide_eq_true_eq, mem_past_branchParents]
  notNull hash edge := by
    have known := mem_branchParents.mp edge
    change _ ∧ _ ∧ ((_ ∧ 0 = 1) ∨ (_ ∧ 0 + 2 = _)) at known
    omega

theorem mem_trueMergeset_twoBranches :
    block ∈ trueMergeset twoBranches [2002, 2001] 2002 ↔
      block.val % 2 = 1 ∧ 3 ≤ block.val ∧ block.val ≤ 2001 := by
  have reached : Reached twoBranches [2002, 2001] block ↔
      (block = 2002 ∨ FurtherDown block 2002) ∨ block = 2001 ∨ FurtherDown block 2001 := by
    simp only [Reached, twoBranches, mem_past_branchParents, List.mem_cons, List.not_mem_nil,
      or_false, exists_eq_or_imp, exists_eq_left]
  have past : block ∈ Past twoBranches.getParents 2002 ↔ FurtherDown block 2002 :=
    mem_past_branchParents
  have longer : FurtherDown block 2002 ↔
      block.val < 2002 ∧ (block.val = 1 ∨ (2 ≤ block.val ∧ block.val % 2 = 0)) := by
    change block.val < 2002 ∧ 2002 ≤ 2002 ∧ (block.val = 1 ∨ (2 ≤ block.val ∧ block.val % 2 = 0)) ↔ _
    simp
  have shorter : FurtherDown block 2001 ↔
      block.val < 2001 ∧ (block.val = 1 ∨ (2 ≤ block.val ∧ block.val % 2 = 1)) := by
    change block.val < 2001 ∧ 2001 ≤ 2002 ∧ (block.val = 1 ∨ (2 ≤ block.val ∧ block.val % 2 = 1)) ↔ _
    simp
  have head : block = 2002 ↔ block.val = 2002 := Fin.ext_iff
  have other : block = 2001 ↔ block.val = 2001 := Fin.ext_iff
  change Reached twoBranches [2002, 2001] block ∧ block ≠ 2002 ∧
    block ∉ Past twoBranches.getParents 2002 ↔ _
  rw [reached, past, longer, shorter, Ne, head, other]
  omega

theorem encard_trueMergeset_twoBranches :
    (trueMergeset twoBranches [2002, 2001] 2002).encard = 1000 := by
  have value : ∀ i < 1000, (Fin.ofNat (2 ^ 256) (2 * i + 3)).val = 2 * i + 3 := by
    intro i small
    rw [Fin.val_ofNat, Nat.mod_eq_of_lt (by omega)]
  have image : trueMergeset twoBranches [2002, 2001] 2002
      = ((Finset.range 1000).image fun i => Fin.ofNat (2 ^ 256) (2 * i + 3) : Finset Uint256) := by
    ext block
    rw [mem_trueMergeset_twoBranches, Finset.mem_coe, Finset.mem_image]
    constructor
    · rintro ⟨odd, low, high⟩
      refine ⟨(block.val - 3) / 2, Finset.mem_range.mpr (by omega), ?_⟩
      rw [Fin.ext_iff, value _ (by omega)]
      omega
    · grind
  rw [image, Set.encard_coe_eq_coe_finsetCard, Finset.card_image_of_injOn, Finset.card_range]
  · rfl
  · intro i iSmall j jSmall same
    grind

/-- Two branches over genesis have 1001 and 1000 blocks.  A block on both heads, which selects
the longer one, merges a thousand blocks and is refused. -/
theorem thousand_blocks_refused :
    Reachability twoBranches ∧ selectBestParent twoBranches [2002, 2001] = 2002 ∧
      (trueMergeset twoBranches [2002, 2001] 2002).encard = 1000 ∧
      computeMergeset twoBranches [2002, 2001] 2002 = none := by
  refine ⟨twoBranches_reachability, by decide +kernel, encard_trueMergeset_twoBranches, ?_⟩
  rw [computeMergeset_refuses_iff twoBranches_reachability, encard_trueMergeset_twoBranches]
  constructor
  · exact ⟨2001, mem_trueMergeset_twoBranches.mpr (by decide +kernel)⟩
  · exact le_self_add

/-- A merge of one sibling is far below the cap. -/
theorem computeMergeset_overflow_siblings :
    computeMergeset BlockDag.chainAndSibling.provider [3, 4] 3 = none ↔
      (maxMergesetSize : ℕ∞)
        < (trueMergeset BlockDag.chainAndSibling.provider [3, 4] 3).encard := by
  have reach := BlockDag.built_chainAndSibling.reachability
  refine (computeMergeset_overflow_iff _ reach [3, 4] 3).mpr (.inr (.inl ?_))
  have computed : computeMergeset BlockDag.chainAndSibling.provider [3, 4] 3 = some [4] := by
    decide +kernel
  have single : kept BlockDag.chainAndSibling.provider [3, 4] 3 = {4} := by
    ext block
    rw [← (computeMergeset_members computed).2, List.mem_singleton, Set.mem_singleton_iff]
  rw [← encard_kept reach, single, Set.encard_singleton]
  decide +kernel

end QuantBTC.Dag
