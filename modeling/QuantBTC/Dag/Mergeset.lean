/-
# Dag.Mergeset -- is the mergeset exact?

The mergeset of a block should be what its parents reach outside the past of the selected
parent.  `ComputeMergeset` asks for ancestors of the selected parent only among the blocks it
finds below the listed parents: the listed parents themselves are kept unseen.
-/
import QuantBTC.Dag.Build

namespace QuantBTC.Dag

set_option autoImplicit false

open Primitives Theory.ParentGraph

structure Reachability (provider : IGhostdagBlockProvider) : Prop where
  ancestor : ∀ a b, a ≠ b → (provider.isAncestorOf a b = true ↔ a ∈ Past provider.getParents b)
  notNull : ∀ block, 0 ∉ provider.getParents block

def ExactMergeset (provider : IGhostdagBlockProvider) (parents : List Uint256)
    (selectedParent : Uint256) (mergeset : List Uint256) : Prop :=
  mergeset.Nodup ∧ ∀ block, block ∈ mergeset ↔
    Reached provider parents block ∧ block ≠ selectedParent ∧
      block ∉ Past provider.getParents selectedParent

section Search

variable {provider : IGhostdagBlockProvider} {parents : List Uint256} {selectedParent : Uint256}

structure SearchInv (provider : IGhostdagBlockProvider) (parents : List Uint256)
    (selectedParent : Uint256) (s : MergesetState) : Prop where
  roots : ∀ parent ∈ parents, parent ∈ s.visited
  kept : ∀ block ∈ s.visited, block ≠ selectedParent →
    provider.isAncestorOf block selectedParent = false → block ∈ s.outMergeset
  expanded : ∀ block ∈ s.visited, block ≠ selectedParent →
    provider.isAncestorOf block selectedParent = false →
    block ∈ s.queue ∨ ∀ parent ∈ provider.getParents block, parent ≠ 0 → parent ∈ s.visited

theorem searchInv_start :
    SearchInv provider parents selectedParent (mergesetStart parents selectedParent) where
  roots parent mem := by
    by_cases same : parent = selectedParent
    · exact same ▸ List.mem_cons_self ..
    · exact List.mem_cons_of_mem _ (mem_fresh.mpr ⟨mem, by simpa using same⟩)
  kept block mem other _ := (List.mem_cons.mp mem).resolve_left other
  expanded block mem other _ := .inl ((List.mem_cons.mp mem).resolve_left other)

theorem mem_dropWhile_of_outside {block : Uint256} {queue : List Uint256} (mem : block ∈ queue)
    (outside : provider.isAncestorOf block selectedParent = false) :
    block ∈ queue.dropWhile (provider.isAncestorOf · selectedParent) := by
  induction queue with
  | nil => cases mem
  | cons first rest ih => grind [List.dropWhile_cons]

theorem SearchInv.expand {s : MergesetState} {cur : Uint256} {queue : List Uint256}
    (inv : SearchInv provider parents selectedParent s)
    (dropped : s.queue.dropWhile (provider.isAncestorOf · selectedParent) = cur :: queue) :
    SearchInv provider parents selectedParent
      (expandMergeset provider selectedParent cur { s with queue }) where
  roots parent mem := List.mem_append_left _ (inv.roots parent mem)
  kept block mem other outside := by
    rcases List.mem_append.mp mem with old | new
    · exact List.mem_append_left _ (inv.kept block old other outside)
    · exact List.mem_append_right _ (List.mem_filter.mpr ⟨new, by simp [outside]⟩)
  expanded block mem other outside := by
    rcases List.mem_append.mp mem with old | new
    · rcases inv.expanded block old other outside with queued | visited
      · have left := mem_dropWhile_of_outside queued outside
        rw [dropped] at left
        rcases List.mem_cons.mp left with rfl | later
        · right
          intro parent isParent notNull
          by_cases seen : parent ∈ s.visited
          · exact List.mem_append_left _ seen
          · refine List.mem_append_right _ (mem_fresh.mpr ⟨?_, seen⟩)
            exact List.mem_filter.mpr ⟨isParent, by simpa using notNull⟩
        · exact .inl (List.mem_append_left _ later)
      · exact .inr fun parent isParent notNull =>
          List.mem_append_left _ (visited parent isParent notNull)
    · exact .inl (List.mem_append_right _ new)

theorem computeMergeset_complete (reach : Reachability provider) {mergeset : List Uint256}
    (computed : computeMergeset provider parents selectedParent = some mergeset)
    {block : Uint256} (reached : Reached provider parents block) (other : block ≠ selectedParent)
    (outside : block ∉ Past provider.getParents selectedParent) : block ∈ mergeset := by
  obtain ⟨out, ended, rfl⟩ := Option.map_eq_some_iff.mp computed
  obtain ⟨final, inv, nothing, rfl⟩ :=
    mergesetLoop_rule (fun _ _ _ inv dropped => inv.expand dropped) searchInv_start ended
  have noAncestor : ∀ node, node ≠ selectedParent →
      node ∉ Past provider.getParents selectedParent →
      provider.isAncestorOf node selectedParent = false := by
    intro node ne out
    rwa [← Bool.not_eq_true, reach.ancestor node selectedParent ne]
  -- from a visited block outside the past the search goes on to its parents
  have walk : ∀ root, root ∈ final.visited → ∀ node, Relation.ReflTransGen
      (Edge provider.getParents) root node → node ≠ selectedParent →
      node ∉ Past provider.getParents selectedParent → node ∈ final.visited := by
    intro root seen node path
    induction path with
    | refl => exact fun _ _ => seen
    | @tail middle last _ edge ih =>
      intro ne out
      have middleNe : middle ≠ selectedParent := by
        rintro rfl
        exact out (parent_mem_past edge)
      have middleOut : middle ∉ Past provider.getParents selectedParent :=
        fun below => out (past_trans below (parent_mem_past edge))
      have stops := noAncestor middle middleNe middleOut
      rcases inv.expanded middle (ih middleNe middleOut) middleNe stops with queued | visited
      · have left := mem_dropWhile_of_outside queued stops
        simp [nothing] at left
      · refine visited last edge ?_
        rintro rfl
        exact reach.notNull middle edge
  obtain ⟨root, listed, below⟩ := reached
  have path : Relation.ReflTransGen (Edge provider.getParents) root block := by
    rcases below with rfl | below
    · exact .refl
    · exact below.to_reflTransGen
  have seen := walk root (inv.roots root listed) block path other outside
  rw [List.mem_insertionSort]
  exact inv.kept block seen other (noAncestor block other outside)

theorem computeMergeset_keeps_listed {mergeset : List Uint256}
    (computed : computeMergeset provider parents selectedParent = some mergeset)
    {parent : Uint256} (listed : parent ∈ parents) (other : parent ≠ selectedParent) :
    parent ∈ mergeset := by
  have start : parent ∈ (mergesetStart parents selectedParent).outMergeset :=
    mem_fresh.mpr ⟨listed, by simpa using other⟩
  have keeps : ∀ (s : MergesetState) (cur : Uint256) (queue : List Uint256),
      parent ∈ s.outMergeset →
      s.queue.dropWhile (provider.isAncestorOf · selectedParent) = cur :: queue →
      parent ∈ (expandMergeset provider selectedParent cur { s with queue }).outMergeset :=
    fun s cur queue mem _ => List.mem_append_left _ mem
  obtain ⟨out, ended, rfl⟩ := Option.map_eq_some_iff.mp computed
  obtain ⟨final, stays, _, rfl⟩ := mergesetLoop_rule keeps start ended
  rwa [List.mem_insertionSort]

end Search

/-- **The mergeset is exact when no listed parent is in the past of the selected parent, and
only then.** -/
theorem computeMergeset_exact_iff (provider : IGhostdagBlockProvider)
    (reach : Reachability provider) (parents : List Uint256) (selectedParent : Uint256)
    (listed : selectedParent ∈ parents) (mergeset : List Uint256)
    (computed : computeMergeset provider parents selectedParent = some mergeset) :
    ExactMergeset provider parents selectedParent mergeset ↔
      ∀ parent ∈ parents, parent ≠ selectedParent →
        parent ∉ Past provider.getParents selectedParent := by
  have isMergeset := computeMergeset_spec computed
  constructor
  · intro exactly parent isListed other below
    have merged := computeMergeset_keeps_listed computed isListed other
    exact ((exactly.2 parent).mp merged).2.2 below
  · intro none
    refine ⟨isMergeset.nodup, fun block => ⟨fun mem => ?_, ?_⟩⟩
    · have other : block ≠ selectedParent := by
        rintro rfl
        exact isMergeset.selected mem
      refine ⟨isMergeset.reached block mem, other, ?_⟩
      rcases isMergeset.kept block mem with isListed | notAncestor
      · exact none block isListed other
      · intro below
        simp [(reach.ancestor block selectedParent other).mpr below] at notAncestor
    · grind [computeMergeset_complete]

namespace BlockDag

theorem Built.reachability {k : Nat} {Meets : BlockDag → List Uint256 → Prop} {dag : BlockDag}
    (built : Built k Meets dag) : Reachability dag.provider where
  ancestor a b other := by
    have query : dag.provider.isAncestorOf a b = true ↔ a ∈ dag.pastOf b := by
      simp [provider, other]
    rw [query]
    by_cases known : b ∈ dag.hashes
    · exact built.mem_pastOf_iff known
    · have root : dag.provider.getParents b = [] := parentsOf_of_notMem known
      simp [pastOf_of_notMem known, past_of_no_parents root]
  notNull block isParent := by
    by_cases known : block ∈ dag.hashes
    · exact built.ne_zero (built.topological.closed block known 0 isParent) rfl
    · have root : dag.provider.getParents block = [] := parentsOf_of_notMem known
      simp [root] at isParent

def chainAndSibling : BlockDag :=
  [ { hash := 4, parents := [1], data := ⟨1, 1, [], [], 0⟩ },
    { hash := 3, parents := [2], data := ⟨2, 2, [], [], 0⟩ },
    { hash := 2, parents := [1], data := ⟨1, 1, [], [], 0⟩ },
    { hash := 1, parents := [] } ]

theorem built_chainAndSibling : Built 1 (fun _ _ => True) chainAndSibling := by
  have genesis : Built 1 (fun _ _ => True) (chainAndSibling.drop 3) :=
    .add 1 [] 1 .empty trivial (by decide +kernel)
  have second : Built 1 (fun _ _ => True) (chainAndSibling.drop 2) :=
    .add 2 [1] 1 genesis trivial (by decide +kernel)
  have third : Built 1 (fun _ _ => True) (chainAndSibling.drop 1) :=
    .add 3 [2] 1 second trivial (by decide +kernel)
  exact .add 4 [1] 1 third trivial (by decide +kernel)

theorem past_chainHead (hash : Uint256) :
    hash ∈ Past chainAndSibling.provider.getParents 3 ↔ hash = 2 ∨ hash = 1 := by
  have head : chainAndSibling.provider.getParents 3 = [2] := by decide +kernel
  have second : chainAndSibling.provider.getParents 2 = [1] := by decide +kernel
  have genesis : chainAndSibling.provider.getParents 1 = [] := by decide +kernel
  rw [past_of_single_parent head, past_of_single_parent second, past_of_no_parents genesis]
  simp

/-- A merge of the chain and the sibling is exact. -/
theorem computeMergeset_exact_siblings :
    computeMergeset chainAndSibling.provider [3, 4] 3 = some [4] ∧
      ExactMergeset chainAndSibling.provider [3, 4] 3 [4] := by
  have computed : computeMergeset chainAndSibling.provider [3, 4] 3 = some [4] := by
    decide +kernel
  refine ⟨computed, (computeMergeset_exact_iff _ built_chainAndSibling.reachability [3, 4] 3
    (List.mem_cons_self ..) [4] computed).mpr ?_⟩
  intro parent mem other
  obtain rfl : parent = 4 := by simpa [other] using mem
  rw [past_chainHead]
  decide +kernel

/-- A block on the head of the chain that also lists genesis merges genesis, which is in the
past of the head. -/
theorem listed_ancestor_is_merged :
    Reachability chainAndSibling.provider ∧
      computeMergeset chainAndSibling.provider [3, 1] 3 = some [1] ∧
      (1 : Uint256) ∈ Past chainAndSibling.provider.getParents 3 ∧
      ¬ ExactMergeset chainAndSibling.provider [3, 1] 3 [1] := by
  have below : (1 : Uint256) ∈ Past chainAndSibling.provider.getParents 3 :=
    (past_chainHead 1).mpr (.inr rfl)
  refine ⟨built_chainAndSibling.reachability, by decide +kernel, below, ?_⟩
  rintro ⟨_, exactly⟩
  exact ((exactly 1).mp (List.mem_singleton_self 1)).2.2 below

end BlockDag

end QuantBTC.Dag
