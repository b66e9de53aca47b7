/-
# Dag.Search -- what the search of the mergeset finds, whatever its order

The breadth-first search of `ComputeMergeset` meets the blocks in an order that depends on the
order of the listed parents, and it stops as soon as the size cap is reached.  Neither shows in
its result: the blocks it keeps are a set that depends on the listed parents as a set, and the
verdict depends on the size of that set.
-/
import QuantBTC.Dag.Mergeset
import QuantBTC.Dag.ScoreOrder

namespace QuantBTC.Dag

set_option autoImplicit false

open Primitives Theory.ParentGraph

variable (provider : IGhostdagBlockProvider) (parents : List Uint256) (selectedParent : Uint256)

/-! ## The kept blocks -/

inductive Visited : Uint256 → Prop where
  | listed {block : Uint256} (mem : block ∈ parents) (other : block ≠ selectedParent) :
      Visited block
  | parent {child block : Uint256} (seen : Visited child)
      (expands : provider.isAncestorOf child selectedParent = false)
      (edge : block ∈ provider.getParents child) (notNull : block ≠ 0)
      (other : block ≠ selectedParent) : Visited block

def kept : Set Uint256 :=
  {block | Visited provider parents selectedParent block ∧
    (block ∈ parents ∨ provider.isAncestorOf block selectedParent = false)}

def Expands : Prop :=
  ∃ parent ∈ parents, parent ≠ selectedParent ∧
    provider.isAncestorOf parent selectedParent = false

variable {provider parents selectedParent}

variable {block : Uint256}

theorem Visited.ne_selected (visited : Visited provider parents selectedParent block) :
    block ≠ selectedParent := by
  cases visited with
  | listed _ other => exact other
  | parent _ _ _ _ other => exact other

theorem Visited.expands (visited : Visited provider parents selectedParent block)
    (notAncestor : provider.isAncestorOf block selectedParent = false) :
    Expands provider parents selectedParent := by
  induction visited with
  | listed mem other => exact ⟨_, mem, other, notAncestor⟩
  | parent _ expands _ _ _ ih => exact ih expands

theorem Visited.of_subset {others : List Uint256}
    (visited : Visited provider parents selectedParent block)
    (subset : ∀ parent ∈ parents, parent ∈ others) :
    Visited provider others selectedParent block := by
  induction visited with
  | listed mem other => exact .listed (subset _ mem) other
  | parent _ expands edge notNull other ih => exact .parent ih expands edge notNull other

/-! ## The search keeps these blocks -/

structure FoundInv (provider : IGhostdagBlockProvider) (parents : List Uint256)
    (selectedParent : Uint256) (s : MergesetState) : Prop where
  visited : ∀ block ∈ s.visited,
    block = selectedParent ∨ Visited provider parents selectedParent block
  queued : ∀ block ∈ s.queue, Visited provider parents selectedParent block

theorem foundInv_start :
    FoundInv provider parents selectedParent (mergesetStart parents selectedParent) := by
  have roots : ∀ block ∈ fresh [selectedParent] parents,
      Visited provider parents selectedParent block := by
    intro block mem
    rw [mem_fresh, List.mem_singleton] at mem
    exact .listed mem.1 mem.2
  constructor
  · intro block mem
    rcases List.mem_cons.mp mem with same | root
    · exact .inl same
    · exact .inr (roots block root)
  · exact roots

variable {s : MergesetState}

theorem FoundInv.expand {cur : Uint256} {queue : List Uint256}
    (inv : FoundInv provider parents selectedParent s) (selected : selectedParent ∈ s.visited)
    (dropped : s.queue.dropWhile (provider.isAncestorOf · selectedParent) = cur :: queue) :
    FoundInv provider parents selectedParent
      (expandMergeset provider selectedParent cur { s with queue }) := by
  have suffix : cur :: queue <:+ s.queue := dropped ▸ List.dropWhile_suffix _
  have found : ∀ block ∈ fresh s.visited ((provider.getParents cur).filter (· ≠ 0)),
      Visited provider parents selectedParent block := by
    intro block mem
    rw [mem_fresh, List.mem_filter, decide_eq_true_eq] at mem
    refine .parent (inv.queued cur (suffix.subset List.mem_cons_self)) (dropWhile_head dropped)
      mem.1.1 mem.1.2 ?_
    rintro rfl
    exact mem.2 selected
  constructor
  · intro block mem
    rcases List.mem_append.mp mem with old | new
    · exact inv.visited block old
    · exact .inr (found block new)
  · intro block mem
    rcases List.mem_append.mp mem with old | new
    · exact inv.queued block (suffix.subset (List.mem_cons_of_mem _ old))
    · exact found block new

theorem FoundInv.out_subset (found : FoundInv provider parents selectedParent s)
    (inv : MergesetInv provider parents selectedParent s) (mem : block ∈ s.outMergeset) :
    block ∈ kept provider parents selectedParent := by
  refine ⟨(found.visited block (inv.visited block mem)).resolve_left ?_, inv.kept block mem⟩
  rintro rfl
  exact inv.selected_out mem

/-- **A returned mergeset holds the kept blocks**, each once. -/
theorem computeMergeset_members {mergeset : List Uint256}
    (computed : computeMergeset provider parents selectedParent = some mergeset) :
    mergeset.Nodup ∧ ∀ block, block ∈ mergeset ↔ block ∈ kept provider parents selectedParent := by
  refine ⟨(computeMergeset_spec computed).nodup, fun block => ⟨fun mem => ?_, ?_⟩⟩
  · obtain ⟨out, ended, rfl⟩ := Option.map_eq_some_iff.mp computed
    obtain ⟨final, ⟨inv, found⟩, _, rfl⟩ := @mergesetLoop_rule provider selectedParent
      (fun s => MergesetInv provider parents selectedParent s ∧
        FoundInv provider parents selectedParent s)
      (fun _ _ _ both dropped => ⟨both.1.expand dropped, both.2.expand both.1.selected dropped⟩)
      _ _ _ ⟨mergesetInv_start, foundInv_start⟩ ended
    exact found.out_subset inv ((List.mem_insertionSort _).mp mem)
  · rintro ⟨visited, listed | notAncestor⟩
    · exact computeMergeset_keeps_listed computed listed visited.ne_selected
    · -- the search goes on below every visited block that is no ancestor
      obtain ⟨out, ended, rfl⟩ := Option.map_eq_some_iff.mp computed
      obtain ⟨final, inv, nothing, rfl⟩ :=
        mergesetLoop_rule (fun _ _ _ inv dropped => inv.expand dropped) searchInv_start ended
      have seen : ∀ block, Visited provider parents selectedParent block →
          block ∈ final.visited := by
        intro block visited
        induction visited with
        | listed mem _ => exact inv.roots _ mem
        | parent child expands edge notNull _ ih =>
          rcases inv.expanded _ ih child.ne_selected expands with queued | parentsSeen
          · have left := mem_dropWhile_of_outside queued expands
            simp [nothing] at left
          · exact parentsSeen _ edge notNull
      rw [List.mem_insertionSort]
      exact inv.kept block (seen block visited) visited.ne_selected notAncestor

/-! ## The verdict -/

theorem mergesetLoop_lt {fuel : Nat} {out : List Uint256}
    (ended : mergesetLoop provider selectedParent fuel s = some out) :
    (s.queue.dropWhile (provider.isAncestorOf · selectedParent) = [] ∧ out = s.outMergeset) ∨
      out.length < maxMergesetSize := by
  induction fuel generalizing s with
  | zero => cases ended
  | succ fuel ih => grind [mergesetLoop, Option.some.inj]

theorem mergesetLoop_none {fuel : Nat} {expanded : List Uint256}
    (inv : MergesetInv provider parents selectedParent s)
    (found : FoundInv provider parents selectedParent s)
    (steps : Expanded provider selectedParent s expanded)
    (enough : maxMergesetSize < fuel + expanded.length)
    (room : expanded = [] ∨ s.outMergeset.length < maxMergesetSize)
    (overflow : mergesetLoop provider selectedParent fuel s = none) :
    Expands provider parents selectedParent ∧ ∃ out : List Uint256, out.Nodup ∧
      (∀ block ∈ out, block ∈ kept provider parents selectedParent) ∧
      maxMergesetSize ≤ out.length := by
  induction fuel generalizing s expanded with
  | zero =>
    -- more blocks expanded than kept
    exfalso
    have fewer := steps.length_le
    rcases room with rfl | room
    · simp at enough
    · omega
  | succ fuel ih =>
    unfold mergesetLoop at overflow
    split at overflow
    · cases overflow
    next cur queue dropped =>
      have inv' := inv.expand dropped
      have found' := found.expand inv.selected dropped
      dsimp only at overflow
      split at overflow
      next full =>
        have suffix : cur :: queue <:+ s.queue := dropped ▸ List.dropWhile_suffix _
        have visited := found.queued cur (suffix.subset List.mem_cons_self)
        exact ⟨visited.expands (dropWhile_head dropped), _, inv'.nodup,
          fun block mem => found'.out_subset inv' mem, full⟩
      next fits =>
        refine ih inv' found' (steps.expand dropped) ?_ (.inr (by omega)) overflow
        rw [List.length_cons]
        omega

theorem computeMergeset_eq_none_iff :
    computeMergeset provider parents selectedParent = none ↔
      Expands provider parents selectedParent ∧
        (maxMergesetSize : ℕ∞) ≤ (kept provider parents selectedParent).encard := by
  constructor
  · intro overflow
    obtain ⟨expands, out, nodup, subset, full⟩ := mergesetLoop_none mergesetInv_start foundInv_start
      expanded_start (Nat.lt_succ_self maxMergesetSize) (.inl rfl)
      (Option.map_eq_none_iff.mp overflow)
    refine ⟨expands, ?_⟩
    calc (maxMergesetSize : ℕ∞) ≤ out.length := by exact_mod_cast full
      _ = (out.toFinset : Set Uint256).encard := by
          rw [Set.encard_coe_eq_coe_finsetCard, List.toFinset_card_of_nodup nodup]
      _ ≤ (kept provider parents selectedParent).encard :=
          Set.encard_le_encard fun block mem => subset block (by simpa using mem)
  · rintro ⟨⟨parent, listed, other, notAncestor⟩, full⟩
    cases computed : computeMergeset provider parents selectedParent with
    | none => rfl
    | some mergeset =>
      exfalso
      obtain ⟨nodup, members⟩ := computeMergeset_members computed
      have same : kept provider parents selectedParent = (mergeset.toFinset : Set Uint256) := by
        ext block
        simp [members]
      rw [same, Set.encard_coe_eq_coe_finsetCard, List.toFinset_card_of_nodup nodup] at full
      have long : maxMergesetSize ≤ mergeset.length := by exact_mod_cast full
      obtain ⟨out, ended, rfl⟩ := Option.map_eq_some_iff.mp computed
      rw [List.length_insertionSort] at long
      rcases mergesetLoop_lt ended with ⟨nothing, _⟩ | fits
      · have queued : parent ∈ (mergesetStart parents selectedParent).queue :=
          mem_fresh.mpr ⟨listed, by simpa using other⟩
        have left := mem_dropWhile_of_outside queued notAncestor
        simp [nothing] at left
      · omega

/-! ## The parents as a set -/

section ParentSet

variable {others : List Uint256}

theorem selectBestParent_congr (provider : IGhostdagBlockProvider)
    (same : ∀ parent, parent ∈ parents ↔ parent ∈ others) :
    selectBestParent provider parents = selectBestParent provider others := by
  by_cases empty : parents = []
  · subst empty
    rw [List.eq_nil_iff_forall_not_mem.mpr fun parent mem =>
      absurd ((same parent).mpr mem) List.not_mem_nil]
  · have nonempty : others ≠ [] := by
      rintro rfl
      exact empty (List.eq_nil_iff_forall_not_mem.mpr fun parent mem =>
        absurd ((same parent).mp mem) List.not_mem_nil)
    have one := selectBestParent_best provider parents _
      ((same _).mpr (selectBestParent_mem provider nonempty))
    have two := selectBestParent_best provider others _
      ((same _).mp (selectBestParent_mem provider empty))
    grind

theorem kept_congr (same : ∀ parent, parent ∈ parents ↔ parent ∈ others) :
    kept provider parents selectedParent = kept provider others selectedParent := by
  refine Set.ext fun block => ?_
  have visited : Visited provider parents selectedParent block ↔
      Visited provider others selectedParent block :=
    ⟨fun seen => seen.of_subset fun parent => (same parent).mp,
      fun seen => seen.of_subset fun parent => (same parent).mpr⟩
  exact and_congr visited (or_congr_left (same block))

theorem expands_congr (same : ∀ parent, parent ∈ parents ↔ parent ∈ others) :
    Expands provider parents selectedParent ↔ Expands provider others selectedParent := by
  simp only [Expands, same]

theorem computeMergeset_congr (same : ∀ parent, parent ∈ parents ↔ parent ∈ others) :
    computeMergeset provider parents selectedParent
      = computeMergeset provider others selectedParent := by
  have verdict : computeMergeset provider parents selectedParent = none ↔
      computeMergeset provider others selectedParent = none := by
    rw [computeMergeset_eq_none_iff, computeMergeset_eq_none_iff, kept_congr same,
      expands_congr same]
  cases one : computeMergeset provider parents selectedParent with
  | none => exact (verdict.mp one).symm
  | some mergeset =>
    cases two : computeMergeset provider others selectedParent with
    | none =>
      simp [verdict.mpr two] at one
    | some merged =>
      obtain ⟨nodupOne, membersOne⟩ := computeMergeset_members one
      obtain ⟨nodupTwo, membersTwo⟩ := computeMergeset_members two
      have perm : mergeset.Perm merged := by grind [List.perm_ext_iff_of_nodup, kept_congr]
      rw [List.Perm.eq_of_pairwise' (computeMergeset_sorted one) (computeMergeset_sorted two) perm]

end ParentSet

/-- **The parent list is treated as a set**: for every provider, two lists with the same elements
give the same verdict, or the same selected parent, score, work, blues and reds. -/
theorem computeGhostdag_parents_as_set (provider : IGhostdagBlockProvider) (k : Nat)
    (parents others : List Uint256) (same : ∀ parent, parent ∈ parents ↔ parent ∈ others) :
    computeGhostdag provider k parents = computeGhostdag provider k others := by
  have empty : parents = [] ↔ others = [] := by
    simp only [List.eq_nil_iff_forall_not_mem, same]
  rw [computeGhostdag, computeGhostdag, selectBestParent_congr provider same]
  simp only [empty, computeMergeset_congr same]

/-- Siblings merged in either order, one of them listed twice. -/
theorem computeGhostdag_parents_scoredDiamond :
    computeGhostdag scoredDiamond.provider 1 [2, 3, 2] = some ⟨3, 2, [3], [], 1⟩ := by
  rw [computeGhostdag_parents_as_set scoredDiamond.provider 1 [2, 3, 2] [3, 2] (by grind)]
  decide +kernel

end QuantBTC.Dag
