/-
# Theory.ParentGraph -- graphs given by lists of parents

A graph is a function from a node to the list of its parents.  `Past` is what can be
reached along parents; a topological list has every node in front of its parents, so
what is reached from a node stands behind it and no node reaches itself.
-/
import Mathlib

namespace QuantBTC.Theory.ParentGraph

set_option autoImplicit false

variable {α : Type} (parents : α → List α)

/-! ## The past of a node -/

def Edge (child parent : α) : Prop := parent ∈ parents child

def Past (node : α) : Set α := {other | Relation.TransGen (Edge parents) node other}

def Closed (nodes : Set α) : Prop := ∀ node ∈ nodes, ∀ parent ∈ parents node, parent ∈ nodes

variable {parents}

variable {node : α}

theorem parent_mem_past {parent : α} (mem : parent ∈ parents node) : parent ∈ Past parents node :=
  Relation.TransGen.single mem

theorem past_trans {middle other : α} (near : middle ∈ Past parents node)
    (far : other ∈ Past parents middle) : other ∈ Past parents node :=
  Relation.TransGen.trans near far

theorem mem_past_iff {other : α} :
    other ∈ Past parents node
      ↔ ∃ parent ∈ parents node, other = parent ∨ other ∈ Past parents parent := by
  constructor
  · intro reached
    obtain ⟨parent, edge, rest⟩ := Relation.TransGen.head'_iff.mp reached
    refine ⟨parent, edge, ?_⟩
    rcases Relation.reflTransGen_iff_eq_or_transGen.mp rest with same | further
    · exact .inl same
    · exact .inr further
  · rintro ⟨parent, edge, rfl | further⟩
    · exact parent_mem_past edge
    · exact past_trans (parent_mem_past edge) further

theorem mem_past_of_ne {other : α} (reached : other ∈ Past parents node) (ne : other ≠ node) :
    ∃ parent ∈ parents node, parent ≠ node ∧ (other = parent ∨ other ∈ Past parents parent) := by
  have first : ∀ target, target ∈ Past parents node → target = node ∨
      ∃ parent ∈ parents node, parent ≠ node ∧ (target = parent ∨ target ∈ Past parents parent) := by
    intro target reached
    have direct : ∀ target ∈ parents node, target = node ∨ ∃ parent ∈ parents node, parent ≠ node ∧
        (target = parent ∨ target ∈ Past parents parent) := by
      intro target edge
      by_cases same : target = node
      · exact .inl same
      · exact .inr ⟨target, edge, same, .inl rfl⟩
    induction reached with
    | single edge => exact direct _ edge
    | tail _ edge ih =>
      rcases ih with rfl | ⟨parent, mem, other, rfl | further⟩
      · exact direct _ edge
      · exact .inr ⟨_, mem, other, .inr (parent_mem_past edge)⟩
      · exact .inr ⟨parent, mem, other, .inr (past_trans further (parent_mem_past edge))⟩
  exact (first other reached).resolve_left ne

theorem past_of_no_parents (root : parents node = []) : Past parents node = ∅ := by
  refine Set.eq_empty_of_forall_notMem fun other reached => ?_
  obtain ⟨parent, edge, _⟩ := mem_past_iff.mp reached
  simp [root] at edge

theorem past_of_single_parent {parent : α} (single : parents node = [parent]) :
    Past parents node = insert parent (Past parents parent) := by
  ext other
  rw [mem_past_iff, single, Set.mem_insert_iff]
  simp

theorem past_of_two_parents {first second : α} (two : parents node = [first, second]) :
    Past parents node = insert first (Past parents first) ∪ insert second (Past parents second) := by
  ext other
  rw [mem_past_iff, two, Set.mem_union, Set.mem_insert_iff, Set.mem_insert_iff]
  simp

theorem Closed.past_subset {nodes : Set α} (closed : Closed parents nodes) (mem : node ∈ nodes) :
    Past parents node ⊆ nodes := by
  intro other reached
  induction reached with
  | single edge => exact closed node mem _ edge
  | tail _ edge inside => exact closed _ inside _ edge

theorem past_congr {other : α → List α} {nodes : Set α} (closed : Closed parents nodes)
    (agree : ∀ node ∈ nodes, other node = parents node) (mem : node ∈ nodes) :
    Past other node = Past parents node := by
  have forward : ∀ target, target ∈ Past other node → target ∈ Past parents node ∧ target ∈ nodes := by
    intro target reached
    induction reached with
    | single edge =>
      rw [Edge, agree node mem] at edge
      exact ⟨parent_mem_past edge, closed node mem _ edge⟩
    | tail _ edge inside =>
      rw [Edge, agree _ inside.2] at edge
      exact ⟨past_trans inside.1 (parent_mem_past edge), closed _ inside.2 _ edge⟩
  have backward : ∀ target, target ∈ Past parents node → target ∈ Past other node := by
    intro target reached
    induction reached with
    | single edge => exact parent_mem_past ((agree node mem).symm ▸ edge)
    | @tail middle _ before edge inside =>
      have middleMem := closed.past_subset mem before
      exact past_trans inside (parent_mem_past ((agree middle middleMem).symm ▸ edge))
  exact Set.ext fun target => ⟨fun reached => (forward target reached).1, backward target⟩

/-! ## Topological lists -/

inductive Topological (parents : α → List α) : List α → Prop where
  | nil : Topological parents []
  | cons {node : α} {rest : List α} (behind : ∀ parent ∈ parents node, parent ∈ rest)
      (ordered : Topological parents rest) : Topological parents (node :: rest)

variable {nodes : List α}

theorem Topological.closed (ordered : Topological parents nodes) :
    Closed parents {node | node ∈ nodes} := by
  induction ordered with
  | nil => exact fun node mem => nomatch mem
  | cons behind _ ih =>
    intro node mem parent edge
    rcases List.mem_cons.mp mem with rfl | later
    · exact List.mem_cons_of_mem _ (behind parent edge)
    · exact List.mem_cons_of_mem _ (ih node later parent edge)

theorem Topological.past_subset_tail {rest : List α} (ordered : Topological parents (node :: rest))
    {other : α} (reached : other ∈ Past parents node) : other ∈ rest := by
  cases ordered with
  | cons behind ordered =>
    obtain ⟨parent, edge, rfl | further⟩ := mem_past_iff.mp reached
    · exact behind _ edge
    · exact ordered.closed.past_subset (behind parent edge) further

theorem Topological.congr {other : α → List α} (ordered : Topological parents nodes)
    (agree : ∀ node ∈ nodes, other node = parents node) : Topological other nodes := by
  induction ordered with
  | nil => exact .nil
  | cons behind _ ih =>
    refine .cons ?_ (ih fun node mem => agree node (List.mem_cons_of_mem _ mem))
    rwa [agree _ (List.mem_cons_self ..)]

theorem Topological.suffix {rest : List α} (ordered : Topological parents nodes)
    (isSuffix : rest <:+ nodes) : Topological parents rest := by
  induction ordered with
  | nil =>
    rw [List.suffix_nil.mp isSuffix]
    exact .nil
  | cons behind ordered ih =>
    rcases List.suffix_cons_iff.mp isSuffix with rfl | later
    · exact .cons behind ordered
    · exact ih later

theorem Topological.not_mem_past (ordered : Topological parents nodes) (nodup : nodes.Nodup)
    (mem : node ∈ nodes) : node ∉ Past parents node := by
  induction ordered with
  | nil => cases mem
  | @cons first rest behind ordered ih =>
    rw [List.nodup_cons] at nodup
    rcases List.mem_cons.mp mem with rfl | later
    · exact fun reached => nodup.1 (Topological.past_subset_tail (.cons behind ordered) reached)
    · exact ih nodup.2 later

/-! ## Finite acyclic sets -/

theorem exists_source {nodes : Finset α} (acyclic : ∀ node ∈ nodes, node ∉ Past parents node)
    (nonempty : nodes.Nonempty) : ∃ node ∈ nodes, ∀ parent ∈ parents node, parent ∉ nodes := by
  let reaches (a b : nodes) : Prop := a.1 ∈ Past parents b.1
  have trans : IsTrans nodes reaches := ⟨fun _ _ _ low high => past_trans high low⟩
  have irrefl : Std.Irrefl reaches := ⟨fun node => acyclic node.1 node.2⟩
  have wellFounded := Finite.wellFounded_of_trans_of_irrefl reaches
  obtain ⟨first, mem⟩ := nonempty
  obtain ⟨source, _, least⟩ := wellFounded.has_min Set.univ ⟨⟨first, mem⟩, trivial⟩
  refine ⟨source.1, source.2, ?_⟩
  intro parent edge parentMem
  exact least ⟨parent, parentMem⟩ trivial (parent_mem_past edge)

theorem past_induction {nodes : Finset α} (closed : Closed parents nodes)
    (acyclic : ∀ node ∈ nodes, node ∉ Past parents node) {motive : α → Prop}
    (step : ∀ node ∈ nodes, (∀ parent ∈ parents node, motive parent) → motive node) :
    ∀ node ∈ nodes, motive node := by
  classical
  by_contra missing
  push Not at missing
  obtain ⟨bad, badMem, isBad⟩ := missing
  have nonempty : (nodes.filter fun node => ¬ motive node).Nonempty :=
    ⟨bad, Finset.mem_filter.mpr ⟨badMem, isBad⟩⟩
  obtain ⟨source, mem, noneBad⟩ := exists_source
    (fun node mem => acyclic node (Finset.mem_filter.mp mem).1) nonempty
  rw [Finset.mem_filter] at mem
  refine mem.2 (step source mem.1 fun parent edge => ?_)
  by_contra parentBad
  exact noneBad parent edge (Finset.mem_filter.mpr ⟨closed source mem.1 parent edge, parentBad⟩)

/-! ## Searches -/

section

variable [DecidableEq α]

def fresh (visited : List α) : List α → List α
  | [] => []
  | node :: rest =>
    if node ∈ visited then fresh visited rest else node :: fresh (node :: visited) rest

@[simp] theorem mem_fresh {visited neighbours : List α} {node : α} :
    node ∈ fresh visited neighbours ↔ node ∈ neighbours ∧ node ∉ visited := by
  induction neighbours generalizing visited with
  | nil => simp [fresh]
  | cons first rest ih =>
    by_cases seen : first ∈ visited
    · rw [fresh, if_pos seen, ih, List.mem_cons]
      constructor
      · rintro ⟨mem, unseen⟩
        exact ⟨.inr mem, unseen⟩
      · rintro ⟨rfl | mem, unseen⟩
        · exact absurd seen unseen
        · exact ⟨mem, unseen⟩
    · rw [fresh, if_neg seen, List.mem_cons, ih, List.mem_cons, List.mem_cons, not_or]
      constructor
      · rintro (rfl | ⟨mem, -, unseen⟩)
        · exact ⟨.inl rfl, seen⟩
        · exact ⟨.inr mem, unseen⟩
      · rintro ⟨rfl | mem, unseen⟩
        · exact .inl rfl
        · by_cases same : node = first
          · exact .inl same
          · exact .inr ⟨mem, same, unseen⟩

theorem nodup_fresh (visited neighbours : List α) : (fresh visited neighbours).Nodup := by
  induction neighbours generalizing visited with
  | nil => exact List.nodup_nil
  | cons first rest ih =>
    rw [fresh]
    split
    · exact ih visited
    · refine List.nodup_cons.mpr ⟨?_, ih _⟩
      simp

end

end QuantBTC.Theory.ParentGraph
