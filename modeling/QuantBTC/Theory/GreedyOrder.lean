/-
# Theory.GreedyOrder -- the greedy linear extension of a graph

A finite set of nodes is listed so that every node comes behind its parents, as far as they
are in the set.  `Greedy` is the order in which, at every place, the node with the least key
stands among all that may come next.
-/
import QuantBTC.Theory.ParentGraph

namespace QuantBTC.Theory.GreedyOrder

set_option autoImplicit false

open Theory.ParentGraph

variable {α β : Type} [LinearOrder β]
variable (parents : α → List α) (nodes : Finset α) (key : α → β)

def Ready (emitted : List α) (node : α) : Prop :=
  node ∈ nodes ∧ node ∉ emitted ∧ ∀ parent ∈ parents node, parent ∈ nodes → parent ∈ emitted

def Next (emitted : List α) (node : α) : Prop :=
  Ready parents nodes emitted node ∧
    ∀ other, Ready parents nodes emitted other → key node ≤ key other

def Greedy (order : List α) : Prop :=
  ∀ emitted node rest, order = emitted ++ node :: rest → Next parents nodes key emitted node

variable {parents nodes key} {order other : List α}

theorem exists_ready (acyclic : ∀ node ∈ nodes, node ∉ Past parents node)
    {missing : α} (mem : missing ∈ nodes) {emitted : List α} (unlisted : missing ∉ emitted) :
    ∃ node, Ready parents nodes emitted node := by
  classical
  have nonempty : (nodes.filter (· ∉ emitted)).Nonempty :=
    ⟨missing, Finset.mem_filter.mpr ⟨mem, unlisted⟩⟩
  obtain ⟨source, isMissing, noneMissing⟩ := exists_source
    (fun node mem => acyclic node (Finset.mem_filter.mp mem).1) nonempty
  rw [Finset.mem_filter] at isMissing
  refine ⟨source, isMissing.1, isMissing.2, fun parent edge parentMem => ?_⟩
  by_contra parentUnlisted
  exact noneMissing parent edge (Finset.mem_filter.mpr ⟨parentMem, parentUnlisted⟩)

theorem greedy_nil : Greedy parents nodes key [] := by
  intro emitted node rest split
  exact absurd split.symm (List.append_ne_nil_of_right_ne_nil _ (List.cons_ne_nil _ _))

theorem Greedy.concat {node : α} (greedy : Greedy parents nodes key order)
    (next : Next parents nodes key order node) : Greedy parents nodes key (order ++ [node]) := by
  intro emitted last rest split
  rcases List.append_eq_append_iff.mp split with ⟨more, rfl, tail⟩ | ⟨more, rfl, tail⟩
  · -- the place is the last one
    rcases List.cons_eq_append_iff.mp tail with ⟨rfl, single⟩ | ⟨before, rfl, single⟩
    · obtain ⟨rfl, rfl⟩ := List.cons_eq_cons.mp single
      rwa [List.append_nil]
    · exact absurd single.symm (List.append_ne_nil_of_right_ne_nil _ (List.cons_ne_nil _ _))
  · rcases List.cons_eq_append_iff.mp tail with ⟨rfl, single⟩ | ⟨before, rfl, _⟩
    · obtain ⟨rfl, rfl⟩ := List.cons_eq_cons.mp single
      rwa [List.append_nil] at next
    · exact greedy emitted last before rfl

theorem Greedy.mem_nodes (greedy : Greedy parents nodes key order) {node : α}
    (listed : node ∈ order) : node ∈ nodes := by
  obtain ⟨emitted, rest, split⟩ := List.append_of_mem listed
  exact (greedy emitted node rest split).1.1

theorem Greedy.nodup (greedy : Greedy parents nodes key order) : order.Nodup := by
  induction order using List.reverseRecOn with
  | nil => exact List.nodup_nil
  | append_singleton before last ih =>
    have next := greedy before last [] rfl
    have shorter : Greedy parents nodes key before := by
      rintro emitted node rest rfl
      exact greedy emitted node (rest ++ [last]) (by simp)
    rw [List.nodup_append]
    refine ⟨ih shorter, List.nodup_singleton last, ?_⟩
    rintro node listed _ isLast rfl
    rw [List.mem_singleton] at isLast
    exact next.1.2.1 (isLast ▸ listed)

theorem Greedy.unique (distinct : Function.Injective key)
    (one : Greedy parents nodes key order) (two : Greedy parents nodes key other)
    (completeOne : ∀ node ∈ nodes, node ∈ order) (completeTwo : ∀ node ∈ nodes, node ∈ other) :
    order = other := by
  have same : ∀ restOne emitted restTwo, order = emitted ++ restOne → other = emitted ++ restTwo →
      restOne = restTwo := by
    intro restOne
    induction restOne with
    | nil =>
      rintro emitted (_ | ⟨node, restTwo⟩) splitOne splitTwo
      · rfl
      · have ready := (two emitted node restTwo splitTwo).1
        have listed := completeOne node ready.1
        rw [splitOne, List.append_nil] at listed
        exact absurd listed ready.2.1
    | cons node restOne ih =>
      rintro emitted (_ | ⟨node', restTwo⟩) splitOne splitTwo
      · have ready := (one emitted node restOne splitOne).1
        have listed := completeTwo node ready.1
        rw [splitTwo, List.append_nil] at listed
        exact absurd listed ready.2.1
      · have nextOne := one emitted node restOne splitOne
        have nextTwo := two emitted node' restTwo splitTwo
        obtain rfl : node = node' :=
          distinct (le_antisymm (nextOne.2 node' nextTwo.1) (nextTwo.2 node nextOne.1))
        rw [ih (emitted ++ [node]) restTwo (by rw [splitOne]; simp) (by rw [splitTwo]; simp)]
  exact same order [] other rfl rfl

theorem Next.key_le {emitted : List α} {node : α} (next : Next parents nodes key emitted node)
    (smaller : ∀ node ∈ nodes, ∀ parent ∈ parents node, parent ∈ nodes → key parent < key node)
    {missing : α} (mem : missing ∈ nodes) (unlisted : missing ∉ emitted) :
    key node ≤ key missing := by
  classical
  have nonempty : (nodes.filter (· ∉ emitted)).Nonempty :=
    ⟨missing, Finset.mem_filter.mpr ⟨mem, unlisted⟩⟩
  obtain ⟨least, isMissing, isLeast⟩ := Finset.exists_min_image _ key nonempty
  rw [Finset.mem_filter] at isMissing
  have ready : Ready parents nodes emitted least := by
    refine ⟨isMissing.1, isMissing.2, fun parent edge parentMem => ?_⟩
    by_contra parentUnlisted
    have below := isLeast parent (Finset.mem_filter.mpr ⟨parentMem, parentUnlisted⟩)
    exact absurd (smaller least isMissing.1 parent edge parentMem) (not_lt.mpr below)
  exact (next.2 least ready).trans (isLeast missing (Finset.mem_filter.mpr ⟨mem, unlisted⟩))

theorem Greedy.pairwise_key (greedy : Greedy parents nodes key order)
    (smaller : ∀ node ∈ nodes, ∀ parent ∈ parents node, parent ∈ nodes → key parent < key node) :
    order.Pairwise fun a b => key a ≤ key b := by
  rw [List.pairwise_iff_forall_sublist]
  intro a b inOrder
  obtain ⟨emitted, rest, split, behind⟩ : ∃ emitted rest, order = emitted ++ a :: rest ∧ b ∈ rest := by
    obtain ⟨before, after, rfl, aMem, later⟩ := List.cons_sublist_iff.mp inOrder
    obtain ⟨first, second, rfl⟩ := List.append_of_mem aMem
    exact ⟨first, second ++ after, by simp,
      List.mem_append_right _ (List.singleton_sublist.mp later)⟩
  have distinct := greedy.nodup
  refine (greedy emitted a rest split).key_le smaller (greedy.mem_nodes ?_) ?_
  · rw [split]
    exact List.mem_append_right _ (List.mem_cons_of_mem _ behind)
  · intro listed
    rw [split, List.nodup_append] at distinct
    exact distinct.2.2 b listed b (List.mem_cons_of_mem _ behind) rfl

end QuantBTC.Theory.GreedyOrder
