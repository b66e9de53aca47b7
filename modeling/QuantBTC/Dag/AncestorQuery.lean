/-
# Dag.AncestorQuery -- what the ancestor query finds

`IsBlockAncestor` expands only blocks above the height of the ancestor it looks for.  It finds
the ancestors that are not above the block and that some path reaches whose inner blocks are
all higher: those that are `Visible`.
-/
import QuantBTC.Dag.GhostdagBlockindex

namespace QuantBTC.Dag

set_option autoImplicit false

open Primitives Theory.ParentGraph

namespace DagView

variable {view : DagView} {ancestor block : Uint256}

theorem isSome_of_parent {parent : Uint256} (mem : parent ∈ view.getParents block) :
    (view block).isSome := by grind [getParents]

/-! ## Visibility -/

def HighEdge (view : DagView) (ancestor child parent : Uint256) : Prop :=
  parent ∈ view.getParents child ∧ view.heightOf ancestor < view.heightOf parent

def Visible (view : DagView) (ancestor block : Uint256) : Prop :=
  ∃ child, Relation.ReflTransGen (HighEdge view ancestor) block child ∧
    ancestor ∈ view.getParents child

theorem Visible.of_parent (mem : ancestor ∈ view.getParents block) : Visible view ancestor block :=
  ⟨block, .refl, mem⟩

theorem Visible.head {parent : Uint256} (edge : HighEdge view ancestor block parent)
    (visible : Visible view ancestor parent) : Visible view ancestor block := by
  obtain ⟨child, path, mem⟩ := visible
  exact ⟨child, .head edge path, mem⟩

theorem Visible.mem_past (visible : Visible view ancestor block) :
    ancestor ∈ Past view.getParents block := by
  obtain ⟨child, path, mem⟩ := visible
  induction path using Relation.ReflTransGen.head_induction_on with
  | refl => exact parent_mem_past mem
  | head edge _ ih => exact past_trans (parent_mem_past edge.1) ih

/-! ## The walk -/

theorem visible_of_walkDown {fuel : Nat}
    (found : view.walkDown (view.heightOf ancestor) fuel (some block) = some ancestor) :
    block = ancestor ∨
      (view.heightOf ancestor < view.heightOf block ∧ Visible view ancestor block) := by
  induction fuel generalizing block with
  | zero => exact .inl (Option.some.inj found)
  | succ fuel ih =>
    unfold walkDown at found
    cases isEntry : view block with
    | none =>
      simp [isEntry] at found
    | some entry =>
      rw [isEntry] at found
      dsimp only at found
      split at found
      next above =>
        have height : view.heightOf block = entry.nHeight := by rw [heightOf, isEntry]
        cases isPrev : entry.pprev with
        | none =>
          rw [isPrev] at found
          cases fuel <;> cases found
        | some prev =>
          have parent : prev ∈ view.getParents block := by
            simp [getParents, isEntry, DagEntry.parents, isPrev]
          rw [isPrev] at found
          refine .inr ⟨by omega, ?_⟩
          rcases ih found with rfl | ⟨higher, visible⟩
          · exact .of_parent parent
          · exact .head ⟨parent, higher⟩ visible
      · exact .inl (Option.some.inj found)

/-! ## The search -/

structure AncestorSearch (view : DagView) (ancestor block : Uint256) (nodes : List Uint256)
    (looked visited queue : List Uint256) : Prop where
  nodup : (looked ++ queue).Nodup
  visited_nodup : visited.Nodup
  known : ∀ other ∈ visited, other ∈ nodes
  inVisited : ∀ other ∈ looked ++ queue, other ∈ visited
  start : block ∈ looked ++ queue
  expanded : ∀ other ∈ looked, ancestor ∉ view.getParents other ∧
    ∀ parent ∈ view.getParents other, parent ∈ visited
  high : ∀ other ∈ visited, view.heightOf ancestor < view.heightOf other →
    other ∈ looked ++ queue
  reached : ∀ other ∈ queue, Relation.ReflTransGen (HighEdge view ancestor) block other

variable {nodes looked visited queue : List Uint256}

theorem AncestorSearch.not_visible
    (search : AncestorSearch view ancestor block nodes looked visited []) :
    ¬ Visible view ancestor block := by
  have inLooked : ∀ other, Relation.ReflTransGen (HighEdge view ancestor) block other →
      other ∈ looked := by
    intro other path
    induction path with
    | refl => simpa using search.start
    | tail _ edge ih =>
      have seen := (search.expanded _ ih).2 _ edge.1
      simpa using search.high _ seen edge.2
  rintro ⟨child, path, mem⟩
  exact (search.expanded child (inLooked child path)).1 mem

theorem AncestorSearch.expand {cur : Uint256}
    (search : AncestorSearch view ancestor block nodes looked visited (cur :: queue))
    (closed : Closed view.getParents {node | node ∈ nodes})
    (notFound : ancestor ∉ view.getParents cur) :
    AncestorSearch view ancestor block nodes (looked ++ [cur])
      (visited ++ fresh visited (view.getParents cur))
      (queue ++ (fresh visited (view.getParents cur)).filter
        (view.heightOf ancestor < view.heightOf ·)) := by
  have curKnown : cur ∈ nodes :=
    search.known cur (search.inVisited cur (List.mem_append_right _ (List.mem_cons_self ..)))
  have split : ∀ new, looked ++ [cur] ++ (queue ++ new) = (looked ++ cur :: queue) ++ new := by
    simp
  refine ⟨?_, ?_, ?_, ?_, ?_, ?_, ?_, ?_⟩
  · rw [split]
    refine List.nodup_append.mpr ⟨search.nodup, (nodup_fresh _ _).filter _, ?_⟩
    rintro other old _ new rfl
    exact (mem_fresh.mp (List.mem_filter.mp new).1).2 (search.inVisited other old)
  · refine List.nodup_append.mpr ⟨search.visited_nodup, nodup_fresh _ _, ?_⟩
    rintro other old _ new rfl
    exact (mem_fresh.mp new).2 old
  · intro other mem
    rcases List.mem_append.mp mem with old | new
    · exact search.known other old
    · exact closed cur curKnown other (mem_fresh.mp new).1
  · intro other mem
    rw [split] at mem
    rcases List.mem_append.mp mem with old | new
    · exact List.mem_append_left _ (search.inVisited other old)
    · exact List.mem_append_right _ (List.mem_filter.mp new).1
  · rw [split]
    exact List.mem_append_left _ search.start
  · intro other mem
    rcases List.mem_append.mp mem with old | new
    · obtain ⟨notChild, parents⟩ := search.expanded other old
      exact ⟨notChild, fun parent isParent => List.mem_append_left _ (parents parent isParent)⟩
    · obtain rfl := List.mem_singleton.mp new
      refine ⟨notFound, fun parent isParent => ?_⟩
      by_cases seen : parent ∈ visited
      · exact List.mem_append_left _ seen
      · exact List.mem_append_right _ (mem_fresh.mpr ⟨isParent, seen⟩)
  · intro other mem higher
    rw [split]
    rcases List.mem_append.mp mem with old | new
    · exact List.mem_append_left _ (search.high other old higher)
    · exact List.mem_append_right _ (List.mem_filter.mpr ⟨new, by simpa using higher⟩)
  · intro other mem
    rcases List.mem_append.mp mem with old | new
    · exact search.reached other (List.mem_cons_of_mem _ old)
    · rw [List.mem_filter, mem_fresh] at new
      exact (search.reached cur (List.mem_cons_self ..)).tail ⟨new.1.1, by simpa using new.2⟩

theorem searchAncestor_iff (closed : Closed view.getParents {node | node ∈ nodes})
    (few : nodes.length ≤ maxAncestorBfsNodes) {fuel : Nat}
    (search : AncestorSearch view ancestor block nodes looked visited queue)
    (enough : maxAncestorBfsNodes < fuel + looked.length) :
    view.searchAncestor ancestor fuel visited queue = true ↔ Visible view ancestor block := by
  have visitedFew := (List.subperm_of_subset search.visited_nodup search.known).length_le
  have lookedFew := (List.subperm_of_subset search.nodup search.inVisited).length_le
  rw [List.length_append] at lookedFew
  induction fuel generalizing looked visited queue with
  | zero => omega
  | succ fuel ih =>
    cases queue with
    | nil => exact iff_of_false Bool.false_ne_true search.not_visible
    | cons cur queue =>
      rw [searchAncestor, if_neg (by omega)]
      split
      next found =>
        exact iff_of_true rfl ⟨cur, search.reached cur (List.mem_cons_self ..), found⟩
      next notFound =>
        have next := search.expand closed notFound
        refine ih next ?_ (List.subperm_of_subset next.visited_nodup next.known).length_le ?_
        · rw [List.length_append, List.length_singleton]
          omega
        · grind

/-- **What the ancestor query finds.** -/
theorem isBlockAncestor_iff (closed : Closed view.getParents {node | node ∈ nodes})
    (few : nodes.length ≤ maxAncestorBfsNodes) (mem : block ∈ nodes) :
    view.isBlockAncestor ancestor block = true ↔
      ancestor = block ∨
        (view.heightOf ancestor ≤ view.heightOf block ∧ Visible view ancestor block) := by
  have start : AncestorSearch view ancestor block nodes [] [block] [block] := by
    refine ⟨List.nodup_singleton _, List.nodup_singleton _, ?_, fun _ mem => mem,
      List.mem_singleton_self _, fun _ mem => (List.not_mem_nil mem).elim,
      fun _ mem _ => mem, ?_⟩
    · rwa [List.forall_mem_singleton]
    · rw [List.forall_mem_singleton]
  have searched := searchAncestor_iff closed few start
    (show maxAncestorBfsNodes < maxAncestorBfsNodes + 1 + [].length by simp)
  unfold isBlockAncestor
  split
  next same => exact iff_of_true rfl (.inl same)
  next other =>
    split
    · grind
    next notAbove =>
      split
      next walked =>
        refine iff_of_true rfl (.inr ⟨by omega, ?_⟩)
        rcases visible_of_walkDown walked with same | ⟨_, visible⟩
        · exact absurd same.symm other
        · exact visible
      · grind

/-! ## Pasts that are visible -/

def VisiblePast (view : DagView) : Prop :=
  ∀ block, ∀ ancestor ∈ Past view.getParents block, ancestor = block ∨
    (view.heightOf ancestor ≤ view.heightOf block ∧ Visible view ancestor block)

def ExactQuery (view : DagView) : Prop :=
  ∀ ancestor block, (view ancestor).isSome → (view block).isSome →
    (view.provider.isAncestorOf ancestor block = true ↔
      ancestor = block ∨ ancestor ∈ Past view.getParents block)

theorem exactQuery_iff (nodes : List Uint256) (complete : ∀ hash, hash ∈ nodes ↔ (view hash).isSome)
    (closed : Closed view.getParents {node | (view node).isSome})
    (few : nodes.length ≤ maxAncestorBfsNodes) : ExactQuery view ↔ VisiblePast view := by
  have nodesClosed : Closed view.getParents {node | node ∈ nodes} := by
    simpa only [complete] using closed
  have answer : ∀ ancestor block, (view ancestor).isSome → (view block).isSome →
      (view.provider.isAncestorOf ancestor block = true ↔ ancestor = block ∨
        (view.heightOf ancestor ≤ view.heightOf block ∧ Visible view ancestor block)) := by
    grind [isBlockAncestor_iff, provider]
  constructor
  · intro exact block ancestor below
    obtain ⟨_, mem, _⟩ := mem_past_iff.mp below
    have blockKnown := isSome_of_parent mem
    have ancestorKnown := closed.past_subset blockKnown below
    exact (answer ancestor block ancestorKnown blockKnown).mp
      ((exact ancestor block ancestorKnown blockKnown).mpr (.inr below))
  · intro visible ancestor block ancestorKnown blockKnown
    rw [answer ancestor block ancestorKnown blockKnown]
    constructor
    · rintro (same | ⟨_, seen⟩)
      · exact .inl same
      · exact .inr seen.mem_past
    · rintro (same | below)
      · exact .inl same
      · exact visible block ancestor below

/-! ## Adding a block -/

section Add

variable {other : DagView} {blocks : Set Uint256}

theorem Visible.congr (closed : Closed view.getParents blocks)
    (agree : ∀ block ∈ blocks, other block = view block) (ancestorMem : ancestor ∈ blocks)
    (mem : block ∈ blocks) (visible : Visible view ancestor block) :
    Visible other ancestor block := by
  obtain ⟨child, path, isParent⟩ := visible
  induction path using Relation.ReflTransGen.head_induction_on with
  | refl =>
    refine .of_parent ?_
    rwa [getParents_eq agree mem]
  | head edge _ ih =>
    have parentMem := closed _ mem _ edge.1
    refine .head ⟨?_, ?_⟩ (ih parentMem)
    · rw [getParents_eq agree mem]
      exact edge.1
    · rw [heightOf_eq agree ancestorMem, heightOf_eq agree parentMem]
      exact edge.2

structure ShowsPast (view : DagView) (parents : List Uint256) (height : Nat) : Prop where
  below : ∀ parent ∈ parents, (view parent).isSome → view.heightOf parent ≤ height
  level : ∀ parent ∈ parents, (view parent).isSome →
    ∀ ancestor ∈ Past view.getParents parent, view.heightOf ancestor = view.heightOf parent →
      ancestor ∈ parents ∨ ∃ higher ∈ parents, (view higher).isSome ∧
        ancestor ∈ Past view.getParents higher ∧ view.heightOf ancestor < view.heightOf higher

theorem Visible.cases_parent (visible : Visible view ancestor block) :
    ancestor ∈ view.getParents block ∨ ∃ parent ∈ view.getParents block, parent ≠ block ∧
      view.heightOf ancestor < view.heightOf parent ∧ Visible view ancestor parent := by
  obtain ⟨child, path, isParent⟩ := visible
  induction path using Relation.ReflTransGen.head_induction_on with
  | refl => exact .inl isParent
  | @head first second edge rest ih =>
    by_cases same : second = first
    · rwa [same] at ih
    · exact .inr ⟨second, edge.1, same, edge.2, child, rest, isParent⟩

structure Adds (view later : DagView) (hash : Uint256) (entry : DagEntry) : Prop where
  closed : Closed view.getParents {node | (view node).isSome}
  unknown : view hash = none
  known : ∀ parent ∈ entry.parents, parent = hash ∨ (view parent).isSome
  new : later hash = some entry
  old : ∀ node, node ≠ hash → later node = view node

namespace Adds

variable {later : DagView} {hash : Uint256} {entry : DagEntry} (adds : Adds view later hash entry)
include adds

variable {node : Uint256}

theorem ne (isOld : (view node).isSome) : node ≠ hash := by
  rintro rfl
  simp [adds.unknown] at isOld

theorem agree : ∀ node ∈ {node | (view node).isSome}, later node = view node :=
  fun node isOld => adds.old node (adds.ne isOld)

theorem getParents_new : later.getParents hash = entry.parents := by rw [getParents, adds.new]

theorem heightOf_new : later.heightOf hash = entry.nHeight := by rw [heightOf, adds.new]

theorem heightOf_old (isOld : (view node).isSome) : later.heightOf node = view.heightOf node :=
  heightOf_eq adds.agree isOld

theorem past_old (isOld : (view node).isSome) :
    Past later.getParents node = Past view.getParents node :=
  past_congr adds.closed (fun _ => getParents_eq adds.agree) isOld

theorem past_isSome (isOld : (view node).isSome) (below : ancestor ∈ Past view.getParents node) :
    (view ancestor).isSome :=
  adds.closed.past_subset isOld below

theorem visible_old (ancestorOld : (view ancestor).isSome) (isOld : (view node).isSome)
    (visible : Visible view ancestor node) : Visible later ancestor node :=
  visible.congr adds.closed adds.agree ancestorOld isOld

theorem showsPast (visible : VisiblePast later) : ShowsPast view entry.parents entry.nHeight := by
  have newPast : ∀ parent ∈ entry.parents, parent ∈ Past later.getParents hash :=
    fun parent mem => parent_mem_past (adds.getParents_new ▸ mem)
  constructor
  · intro parent mem isOld
    rcases visible hash parent (newPast parent mem) with same | ⟨notAbove, _⟩
    · exact absurd same (adds.ne isOld)
    · rwa [adds.heightOf_new, adds.heightOf_old isOld] at notAbove
  · intro parent mem isOld ancestor below _
    have ancestorOld := adds.past_isSome isOld below
    rw [← adds.past_old isOld] at below
    rcases visible hash ancestor (past_trans (newPast parent mem) below) with same | ⟨_, seen⟩
    · exact absurd same (adds.ne ancestorOld)
    · rcases seen.cases_parent with isParent | ⟨higher, isParent, other, above, further⟩
      · exact .inl (adds.getParents_new ▸ isParent)
      · rw [adds.getParents_new] at isParent
        have higherOld := (adds.known higher isParent).resolve_left other
        rw [adds.heightOf_old ancestorOld, adds.heightOf_old higherOld] at above
        refine .inr ⟨higher, isParent, higherOld, ?_, above⟩
        rw [← adds.past_old higherOld]
        exact further.mem_past

theorem visible_through (visible : VisiblePast view) {parent : Uint256}
    (mem : parent ∈ entry.parents) (isOld : (view parent).isSome)
    (below : ancestor ∈ Past view.getParents parent)
    (above : view.heightOf ancestor < view.heightOf parent) : Visible later ancestor hash := by
  have ancestorOld := adds.past_isSome isOld below
  rcases visible parent ancestor below with rfl | ⟨_, seen⟩
  · exact absurd above (lt_irrefl _)
  · refine .head ⟨adds.getParents_new ▸ mem, ?_⟩ (adds.visible_old ancestorOld isOld seen)
    rwa [adds.heightOf_old ancestorOld, adds.heightOf_old isOld]

theorem visible_new (visible : VisiblePast view)
    (shows : ShowsPast view entry.parents entry.nHeight)
    (below : ancestor ∈ Past later.getParents hash) (other : ancestor ≠ hash) :
    later.heightOf ancestor ≤ later.heightOf hash ∧ Visible later ancestor hash := by
  obtain ⟨parent, mem, notNew, reached⟩ := mem_past_of_ne below other
  rw [adds.getParents_new] at mem
  have isOld := (adds.known parent mem).resolve_left notNew
  have parentBelow := shows.below parent mem isOld
  rw [adds.past_old isOld] at reached
  have isParent : ∀ {node}, node ∈ entry.parents → Visible later node hash :=
    fun mem => .of_parent (adds.getParents_new ▸ mem)
  rw [adds.heightOf_new]
  rcases reached with rfl | further
  · rw [adds.heightOf_old isOld]
    exact ⟨parentBelow, isParent mem⟩
  · rw [adds.heightOf_old (adds.past_isSome isOld further)]
    rcases visible parent ancestor further with rfl | ⟨notAbove, _⟩
    · exact ⟨parentBelow, isParent mem⟩
    · refine ⟨notAbove.trans parentBelow, ?_⟩
      rcases notAbove.lt_or_eq with lower | level
      · exact adds.visible_through visible mem isOld further lower
      · rcases shows.level parent mem isOld ancestor further level with
          listed | ⟨higher, listed, higherOld, inPast, above⟩
        · exact isParent listed
        · exact adds.visible_through visible listed higherOld inPast above

/-- **When a new block keeps all pasts visible.** -/
theorem visiblePast_iff (visible : VisiblePast view) :
    VisiblePast later ↔ ShowsPast view entry.parents entry.nHeight := by
  constructor
  · exact adds.showsPast
  · intro shows block ancestor below
    by_cases isNew : block = hash
    · subst isNew
      by_cases same : ancestor = block
      · exact .inl same
      · exact .inr (adds.visible_new visible shows below same)
    · have isOld : (view block).isSome := by
        obtain ⟨_, mem, _⟩ := mem_past_iff.mp below
        rw [← adds.old block isNew]
        exact isSome_of_parent mem
      rw [adds.past_old isOld] at below
      have ancestorOld := adds.past_isSome isOld below
      rw [adds.heightOf_old ancestorOld, adds.heightOf_old isOld]
      rcases visible block ancestor below with same | ⟨notAbove, seen⟩
      · exact .inl same
      · exact .inr ⟨notAbove, adds.visible_old ancestorOld isOld seen⟩

end Adds

end Add

end DagView

end QuantBTC.Dag
