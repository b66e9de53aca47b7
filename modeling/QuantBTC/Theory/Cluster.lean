/-
# Theory.Cluster -- sets in which nodes have few unrelated ones

A set is a `k`-cluster when each of its nodes is unrelated to at most `k` others of the
set.  Adding a node takes a place in the anticone of each node it is unrelated to, so
its own anticone has to be small and those of the others must have room
(`kCluster_insert_iff`).
-/
import Mathlib

namespace QuantBTC.Theory.Cluster

set_option autoImplicit false

variable {α : Type} [DecidableEq α] (related : α → α → Prop) [DecidableRel related]

def anticone (node : α) (nodes : Finset α) : Finset α :=
  nodes.filter fun other => other ≠ node ∧ ¬ related node other

def KCluster (k : Nat) (nodes : Finset α) : Prop :=
  ∀ node ∈ nodes, (anticone related node nodes).card ≤ k

instance (k : Nat) (nodes : Finset α) : Decidable (KCluster related k nodes) :=
  inferInstanceAs (Decidable (∀ node ∈ nodes, _))

variable {related} {k : Nat} {nodes : Finset α} {node other : α}

theorem mem_anticone :
    other ∈ anticone related node nodes ↔ other ∈ nodes ∧ other ≠ node ∧ ¬ related node other :=
  Finset.mem_filter

theorem anticone_insert_self : anticone related node (insert node nodes)
    = anticone related node nodes := by
  ext other
  simp only [mem_anticone, Finset.mem_insert]
  constructor
  · rintro ⟨rfl | mem, ne, unrelated⟩
    · exact absurd rfl ne
    · exact ⟨mem, ne, unrelated⟩
  · rintro ⟨mem, ne, unrelated⟩
    exact ⟨.inr mem, ne, unrelated⟩

theorem anticone_insert_of_related (rel : related node other) :
    anticone related node (insert other nodes) = anticone related node nodes := by
  rw [anticone, Finset.filter_insert, if_neg fun unrelated => unrelated.2 rel]
  rfl

theorem anticone_insert_of_not_related (ne : other ≠ node) (unrelated : ¬ related node other) :
    anticone related node (insert other nodes) = insert other (anticone related node nodes) := by
  rw [anticone, Finset.filter_insert, if_pos ⟨ne, unrelated⟩]
  rfl

theorem kCluster_insert_iff (symm : ∀ a b, related a b → related b a) (fresh : node ∉ nodes) :
    KCluster related k (insert node nodes) ↔
      KCluster related k nodes ∧ (anticone related node nodes).card ≤ k ∧
        ∀ other ∈ anticone related node nodes, (anticone related other nodes).card < k := by
  have grows : ∀ other ∈ anticone related node nodes,
      (anticone related other (insert node nodes)).card = (anticone related other nodes).card + 1 := by
    intro other mem
    obtain ⟨_, ne, unrelated⟩ := mem_anticone.mp mem
    rw [anticone_insert_of_not_related ne.symm fun rel => unrelated (symm _ _ rel),
      Finset.card_insert_of_notMem fun inside => fresh (mem_anticone.mp inside).1]
  have stays : ∀ other ∈ nodes, other ∉ anticone related node nodes →
      anticone related other (insert node nodes) = anticone related other nodes := by
    intro other mem outside
    have ne : other ≠ node := fun same => fresh (same ▸ mem)
    by_cases rel : related node other
    · exact anticone_insert_of_related (symm _ _ rel)
    · exact absurd (mem_anticone.mpr ⟨mem, ne, rel⟩) outside
  constructor
  · intro cluster
    have own := cluster node (Finset.mem_insert_self ..)
    rw [anticone_insert_self] at own
    refine ⟨?_, own, ?_⟩
    · intro other mem
      have le := cluster other (Finset.mem_insert_of_mem mem)
      by_cases inside : other ∈ anticone related node nodes
      · rw [grows other inside] at le
        omega
      · rwa [stays other mem inside] at le
    · intro other inside
      have le := cluster other (Finset.mem_insert_of_mem (mem_anticone.mp inside).1)
      rw [grows other inside] at le
      omega
  · rintro ⟨cluster, own, room⟩ other mem
    rcases Finset.mem_insert.mp mem with rfl | old
    · rwa [anticone_insert_self]
    · by_cases inside : other ∈ anticone related node nodes
      · rw [grows other inside]
        exact room other inside
      · rw [stays other old inside]
        exact cluster other old

theorem KCluster.insert_related (symm : ∀ a b, related a b → related b a)
    (cluster : KCluster related k nodes) (rel : ∀ other ∈ nodes, related node other) :
    KCluster related k (insert node nodes) := by
  by_cases mem : node ∈ nodes
  · rwa [Finset.insert_eq_self.mpr mem]
  · have empty : anticone related node nodes = ∅ := by
      refine Finset.eq_empty_of_forall_notMem fun other inside => ?_
      obtain ⟨old, _, unrelated⟩ := mem_anticone.mp inside
      exact unrelated (rel other old)
    rw [kCluster_insert_iff symm mem, empty]
    exact ⟨cluster, Nat.zero_le _, fun other inside => absurd inside (Finset.notMem_empty _)⟩

theorem KCluster.mono {fewer : Finset α} (subset : fewer ⊆ nodes)
    (cluster : KCluster related k nodes) : KCluster related k fewer := by
  intro node mem
  refine le_trans (Finset.card_le_card ?_) (cluster node (subset mem))
  exact Finset.filter_subset_filter _ subset

theorem KCluster.congr {related' : α → α → Prop} [DecidableRel related']
    (agree : ∀ a ∈ nodes, ∀ b ∈ nodes, (related' a b ↔ related a b))
    (cluster : KCluster related k nodes) : KCluster related' k nodes := by
  intro node mem
  have same : anticone related' node nodes = anticone related node nodes := by
    refine Finset.filter_congr fun other old => ?_
    rw [agree node mem other old]
  rw [same]
  exact cluster node mem

end QuantBTC.Theory.Cluster
