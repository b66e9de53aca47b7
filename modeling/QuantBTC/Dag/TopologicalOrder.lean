/-
# Dag.TopologicalOrder -- `GhostdagManager::TopologicalOrder`

Kahn's algorithm with a priority queue: the edges between the given blocks are counted, the
blocks without a parent among them are queued, and every block that is taken from the queue
releases its children, once for every time they list it.  Blocks are queued by blue score and
hash, least first.

The source goes through two unordered containers.  The orders in which it meets their elements
are arguments here: `allBlocks` for the set of blocks, `degreeOrder` for the keys of
`in_degree`.  A missing key reads as zero or as the empty vector.
-/
import QuantBTC.Dag.Ghostdag
import QuantBTC.Theory.GreedyOrder

namespace QuantBTC.Dag

set_option autoImplicit false

open Primitives Theory.ParentGraph Theory.GreedyOrder

variable (provider : IGhostdagBlockProvider)

/-! ## The algorithm -/

structure KahnGraph where
  inDegree : Uint256 → Int := fun _ => 0
  children : Uint256 → List Uint256 := fun _ => []

def countParent (allBlocks : List Uint256) (h : Uint256) (graph : KahnGraph) (p : Uint256) :
    KahnGraph :=
  if p ∈ allBlocks then
    { inDegree := Function.update graph.inDegree h (graph.inDegree h + 1)
      children := Function.update graph.children p (graph.children p ++ [h]) }
  else graph

def countBlock (allBlocks : List Uint256) (graph : KahnGraph) (h : Uint256) : KahnGraph :=
  (provider.getParents h).foldl (countParent allBlocks h) graph

def kahnGraph (allBlocks : List Uint256) : KahnGraph :=
  allBlocks.foldl (countBlock provider allBlocks) {}

abbrev Entry := Nat ×ₗ Uint256

def entryOf (h : Uint256) : Entry := toLex (blueScoreOf provider h, h)

def push (entry : Entry) (pq : List Entry) : List Entry := pq.orderedInsert (· ≤ ·) entry

structure KahnState where
  inDegree : Uint256 → Int
  pq : List Entry := []
  order : List Uint256 := []

def releaseChild (s : KahnState) (child : Uint256) : KahnState :=
  let degree := s.inDegree child - 1
  { s with
    inDegree := Function.update s.inDegree child degree
    pq := if degree = 0 then push (entryOf provider child) s.pq else s.pq }

def takeBlock (children : Uint256 → List Uint256) (s : KahnState) (h : Uint256)
    (pq : List Entry) : KahnState :=
  (children h).foldl (releaseChild provider) { s with pq, order := s.order ++ [h] }

def kahnLoop (children : Uint256 → List Uint256) : Nat → KahnState → KahnState
  | 0, s => s
  | rounds + 1, s =>
    match s.pq with
    | [] => s
    | top :: pq => kahnLoop children rounds (takeBlock provider children s (ofLex top).2 pq)

def kahnStart (inDegree : Uint256 → Int) (degreeOrder : List Uint256) : KahnState where
  inDegree := inDegree
  pq := degreeOrder.foldl
    (fun pq h => if inDegree h = 0 then push (entryOf provider h) pq else pq) []

def topologicalOrder (allBlocks degreeOrder : List Uint256) : List Uint256 :=
  let graph := kahnGraph provider allBlocks
  (kahnLoop provider graph.children allBlocks.length
    (kahnStart provider graph.inDegree degreeOrder)).order

/-! ## The edges -/

section Graph

variable {provider} {allBlocks : List Uint256}

theorem foldl_countParent (h : Uint256) (ps : List Uint256) (graph : KahnGraph) :
    (∀ x, (ps.foldl (countParent allBlocks h) graph).inDegree x
      = graph.inDegree x + if x = h then (ps.countP (· ∈ allBlocks) : Int) else 0) ∧
    (∀ p c, ((ps.foldl (countParent allBlocks h) graph).children p).count c
      = (graph.children p).count c + if c = h ∧ p ∈ allBlocks then ps.count p else 0) := by
  induction ps generalizing graph with
  | nil => simp
  | cons first rest ih =>
    rw [List.foldl_cons]
    obtain ⟨degrees, counts⟩ := ih (countParent allBlocks h graph first)
    constructor
    · intro x
      rw [degrees, List.countP_cons]
      by_cases inside : first ∈ allBlocks
      · by_cases same : x = h
        · subst same
          simp [countParent, inside]
          omega
        · simp [countParent, inside, same]
      · simp [countParent, inside]
    · intro p c
      rw [counts, List.count_cons]
      by_cases inside : first ∈ allBlocks
      · by_cases same : p = first
        · subst same
          by_cases child : c = h
          · subst child
            simp [countParent, inside]
            omega
          · simp [countParent, inside, child, Ne.symm child]
        · simp [countParent, inside, same, Ne.symm same]
      · grind [countParent]

theorem foldl_countBlock {hs : List Uint256} (distinct : hs.Nodup) (graph : KahnGraph) :
    (∀ x, (hs.foldl (countBlock provider allBlocks) graph).inDegree x = graph.inDegree x +
      if x ∈ hs then ((provider.getParents x).countP (· ∈ allBlocks) : Int) else 0) ∧
    (∀ p c, ((hs.foldl (countBlock provider allBlocks) graph).children p).count c
      = (graph.children p).count c +
        if c ∈ hs ∧ p ∈ allBlocks then (provider.getParents c).count p else 0) := by
  induction hs generalizing graph with
  | nil => simp
  | cons first rest ih =>
    rw [List.nodup_cons] at distinct
    rw [List.foldl_cons]
    obtain ⟨degrees, counts⟩ := ih distinct.2 (countBlock provider allBlocks graph first)
    obtain ⟨firstDegrees, firstCounts⟩ :=
      @foldl_countParent allBlocks first (provider.getParents first) graph
    constructor
    · intro x
      rw [degrees, countBlock, firstDegrees]
      by_cases same : x = first
      · subst same
        simp [distinct.1]
      · simp [same]
    · intro p c
      rw [counts, countBlock, firstCounts]
      by_cases same : c = first
      · subst same
        simp [distinct.1]
      · simp [same]

theorem kahnGraph_inDegree (distinct : allBlocks.Nodup) {h : Uint256} (mem : h ∈ allBlocks) :
    (kahnGraph provider allBlocks).inDegree h
      = ((provider.getParents h).countP (· ∈ allBlocks) : Int) := by
  rw [kahnGraph, (foldl_countBlock distinct {}).1 h, if_pos mem, Int.zero_add]

theorem kahnGraph_children (distinct : allBlocks.Nodup) {p : Uint256} (mem : p ∈ allBlocks)
    (c : Uint256) :
    ((kahnGraph provider allBlocks).children p).count c
      = if c ∈ allBlocks then (provider.getParents c).count p else 0 := by
  rw [kahnGraph, (foldl_countBlock distinct {}).2 p c]
  simp [mem]

theorem mem_kahnGraph_children (distinct : allBlocks.Nodup) {p : Uint256} (mem : p ∈ allBlocks)
    {c : Uint256} : c ∈ (kahnGraph provider allBlocks).children p ↔
      c ∈ allBlocks ∧ 0 < (provider.getParents c).count p := by
  rw [← List.count_pos_iff, kahnGraph_children distinct mem]
  grind

end Graph

/-! ## The queue -/

section Queue

variable {provider}

theorem entryOf_injective : Function.Injective (entryOf provider) := by
  intro a b same
  exact congrArg (fun entry => (ofLex entry).2) same

theorem entryOf_le_iff {a b : Uint256} :
    entryOf provider a ≤ entryOf provider b ↔ ScoreOrder (blueScoreOf provider) a b :=
  Prod.Lex.toLex_le_toLex

theorem mem_push {entry other : Entry} {pq : List Entry} :
    other ∈ push entry pq ↔ other = entry ∨ other ∈ pq :=
  List.mem_orderedInsert _

theorem sorted_push {entry : Entry} {pq : List Entry} (sorted : pq.Pairwise (· ≤ ·)) :
    (push entry pq).Pairwise (· ≤ ·) :=
  sorted.orderedInsert _ _

theorem nodup_push {entry : Entry} {pq : List Entry} (distinct : pq.Nodup)
    (isNew : entry ∉ pq) : (push entry pq).Nodup :=
  (List.perm_orderedInsert _ entry pq).nodup_iff.mpr (List.nodup_cons.mpr ⟨isNew, distinct⟩)

structure QueueInv (provider : IGhostdagBlockProvider) (s : KahnState) : Prop where
  sorted : s.pq.Pairwise (· ≤ ·)
  nodup : s.pq.Nodup
  released : ∀ h, entryOf provider h ∈ s.pq → s.inDegree h = 0

theorem releaseChild_inDegree (s : KahnState) (child c : Uint256) :
    (releaseChild provider s child).inDegree c = s.inDegree c - if c = child then 1 else 0 := by
  by_cases same : c = child
  · subst same
    simp [releaseChild]
  · simp [releaseChild, same]

theorem mem_releaseChild_pq {s : KahnState} {child : Uint256} {entry : Entry} :
    entry ∈ (releaseChild provider s child).pq ↔
      entry ∈ s.pq ∨ (s.inDegree child = 1 ∧ entry = entryOf provider child) := by
  have last : s.inDegree child - 1 = 0 ↔ s.inDegree child = 1 := by omega
  simp only [releaseChild, last]
  split
  next one => simp [mem_push, one, or_comm]
  next many => simp [many]

theorem QueueInv.releaseChild {s : KahnState} {child : Uint256} (inv : QueueInv provider s)
    (waiting : 0 < s.inDegree child) : QueueInv provider (releaseChild provider s child) := by
  have unqueued : entryOf provider child ∉ s.pq := by
    intro queued
    have zero := inv.released child queued
    omega
  refine ⟨?_, ?_, ?_⟩
  · simp only [Dag.releaseChild]
    split
    · exact sorted_push inv.sorted
    · exact inv.sorted
  · simp only [Dag.releaseChild]
    split
    · exact nodup_push inv.nodup unqueued
    · exact inv.nodup
  · intro h queued
    rw [releaseChild_inDegree]
    rcases mem_releaseChild_pq.mp queued with old | ⟨last, isChild⟩
    · have other : h ≠ child := by
        rintro rfl
        exact unqueued old
      rw [inv.released h old, if_neg other]
      rfl
    · obtain rfl := entryOf_injective isChild
      rw [last, if_pos rfl]
      rfl

theorem foldl_releaseChild (cs : List Uint256) {s : KahnState} (inv : QueueInv provider s)
    (enough : ∀ c ∈ cs, (cs.count c : Int) ≤ s.inDegree c) :
    QueueInv provider (cs.foldl (releaseChild provider) s) ∧
      (cs.foldl (releaseChild provider) s).order = s.order ∧
      (∀ c, (cs.foldl (releaseChild provider) s).inDegree c = s.inDegree c - cs.count c) ∧
      ∀ entry, entry ∈ (cs.foldl (releaseChild provider) s).pq ↔
        entry ∈ s.pq ∨ ∃ c ∈ cs, s.inDegree c = cs.count c ∧ entry = entryOf provider c := by
  induction cs generalizing s with
  | nil => simpa using inv
  | cons child rest ih =>
    have listed : (rest.count child : Int) + 1 ≤ s.inDegree child := by grind
    -- the bound and the degree of a child move together with the list
    have shift : ∀ c, ((child :: rest).count c : Int)
        = rest.count c + if c = child then 1 else 0 := by grind
    have enoughLater : ∀ c ∈ rest,
        (rest.count c : Int) ≤ (releaseChild provider s child).inDegree c := by
      intro c mem
      have bound := enough c (List.mem_cons_of_mem _ mem)
      rw [shift] at bound
      rw [releaseChild_inDegree]
      omega
    obtain ⟨queue, order, degrees, queued⟩ := ih (inv.releaseChild (by omega)) enoughLater
    rw [List.foldl_cons]
    refine ⟨queue, order, ?_, ?_⟩
    · intro c
      rw [degrees, releaseChild_inDegree, shift]
      omega
    · intro entry
      rw [queued, mem_releaseChild_pq]
      have level : ∀ c, (releaseChild provider s child).inDegree c = rest.count c
          ↔ s.inDegree c = (child :: rest).count c := by
        intro c
        rw [releaseChild_inDegree, shift]
        omega
      constructor
      · rintro ((old | ⟨last, rfl⟩) | ⟨c, mem, degree, rfl⟩)
        · exact .inl old
        · refine .inr ⟨child, List.mem_cons_self, ?_, rfl⟩
          rw [shift, if_pos rfl]
          omega
        · exact .inr ⟨c, List.mem_cons_of_mem _ mem, (level c).mp degree, rfl⟩
      · rintro (old | ⟨c, mem, degree, rfl⟩)
        · exact .inl (.inl old)
        · by_cases later : c ∈ rest
          · exact .inr ⟨c, later, (level c).mpr degree, rfl⟩
          · obtain rfl : c = child := (List.mem_cons.mp mem).resolve_right later
            rw [shift, if_pos rfl, List.count_eq_zero.mpr later] at degree
            exact .inl (.inr ⟨by omega, rfl⟩)

end Queue

/-! ## The main loop -/

section Loop

variable {provider} {allBlocks : List Uint256}

def missingParents (provider : IGhostdagBlockProvider) (allBlocks order : List Uint256)
    (h : Uint256) : Nat :=
  (provider.getParents h).countP fun p => p ∈ allBlocks ∧ p ∉ order

structure KahnInv (provider : IGhostdagBlockProvider) (allBlocks : List Uint256)
    (s : KahnState) : Prop where
  queue : QueueInv provider s
  degree : ∀ h ∈ allBlocks, s.inDegree h = missingParents provider allBlocks s.order h
  queued : ∀ entry, entry ∈ s.pq ↔
    ∃ h, Ready provider.getParents allBlocks.toFinset s.order h ∧ entry = entryOf provider h
  greedy : Greedy provider.getParents allBlocks.toFinset (entryOf provider) s.order

theorem ready_iff {order : List Uint256} {h : Uint256} :
    Ready provider.getParents allBlocks.toFinset order h ↔
      h ∈ allBlocks ∧ h ∉ order ∧ missingParents provider allBlocks order h = 0 := by
  simp [Ready, missingParents]

theorem missingParents_concat {order : List Uint256} {h : Uint256} (mem : h ∈ allBlocks)
    (unlisted : h ∉ order) (c : Uint256) :
    missingParents provider allBlocks order c
      = missingParents provider allBlocks (order ++ [h]) c + (provider.getParents c).count h := by
  unfold missingParents
  induction provider.getParents c with
  | nil => rfl
  | cons p rest ih => grind

theorem foldl_push (inDegree : Uint256 → Int) {hs : List Uint256} (distinct : hs.Nodup)
    {pq : List Entry} (sorted : pq.Pairwise (· ≤ ·)) (nodup : pq.Nodup)
    (isNew : ∀ h ∈ hs, entryOf provider h ∉ pq) :
    let filled := hs.foldl
      (fun pq h => if inDegree h = 0 then push (entryOf provider h) pq else pq) pq
    filled.Pairwise (· ≤ ·) ∧ filled.Nodup ∧ ∀ entry, entry ∈ filled ↔
      entry ∈ pq ∨ ∃ h ∈ hs, inDegree h = 0 ∧ entry = entryOf provider h := by
  induction hs generalizing pq with
  | nil => exact ⟨sorted, nodup, by simp⟩
  | cons first rest ih =>
    rw [List.nodup_cons] at distinct
    rw [List.forall_mem_cons] at isNew
    rw [List.foldl_cons]
    by_cases root : inDegree first = 0
    · rw [if_pos root]
      have isNewLater : ∀ h ∈ rest, entryOf provider h ∉ push (entryOf provider first) pq := by
        intro h mem queued
        rcases mem_push.mp queued with same | old
        · exact distinct.1 (entryOf_injective same ▸ mem)
        · exact isNew.2 h mem old
      obtain ⟨sorted', nodup', filled⟩ :=
        ih distinct.2 (sorted_push sorted) (nodup_push nodup isNew.1) isNewLater
      refine ⟨sorted', nodup', fun entry => ?_⟩
      rw [filled, mem_push]
      simp
      tauto
    · rw [if_neg root]
      obtain ⟨sorted', nodup', filled⟩ := ih distinct.2 sorted nodup isNew.2
      refine ⟨sorted', nodup', fun entry => ?_⟩
      rw [filled]
      simp [root]

theorem kahnInv_start (distinct : allBlocks.Nodup) {degreeOrder : List Uint256}
    (sameKeys : degreeOrder.Perm allBlocks) :
    KahnInv provider allBlocks
      (kahnStart provider (kahnGraph provider allBlocks).inDegree degreeOrder) := by
  obtain ⟨sorted, nodup, filled⟩ := @foldl_push provider
    (kahnGraph provider allBlocks).inDegree degreeOrder (sameKeys.nodup_iff.mpr distinct) []
    List.Pairwise.nil List.nodup_nil fun _ _ => List.not_mem_nil
  have degree : ∀ h ∈ allBlocks, (kahnGraph provider allBlocks).inDegree h
      = missingParents provider allBlocks [] h := by
    intro h mem
    rw [kahnGraph_inDegree distinct mem]
    simp [missingParents]
  refine ⟨⟨sorted, nodup, ?_⟩, degree, ?_, greedy_nil⟩
  · intro h queued
    rcases (filled _).mp queued with nothing | ⟨root, _, zero, same⟩
    · cases nothing
    · exact entryOf_injective same ▸ zero
  · intro entry
    refine (filled entry).trans ?_
    simp only [List.not_mem_nil, false_or, sameKeys.mem_iff]
    refine exists_congr fun h => ?_
    rw [ready_iff, ← and_assoc]
    refine and_congr_left fun _ => ⟨?_, ?_⟩
    · rintro ⟨mem, zero⟩
      rw [degree h mem] at zero
      exact ⟨mem, List.not_mem_nil, by exact_mod_cast zero⟩
    · rintro ⟨mem, _, zero⟩
      refine ⟨mem, ?_⟩
      rw [degree h mem]
      exact_mod_cast zero

theorem KahnInv.next {s : KahnState} (inv : KahnInv provider allBlocks s) {h : Uint256}
    {pq : List Entry} (queue : s.pq = entryOf provider h :: pq) :
    Next provider.getParents allBlocks.toFinset (entryOf provider) s.order h := by
  have sorted := inv.queue.sorted
  rw [queue, List.pairwise_cons] at sorted
  constructor
  · obtain ⟨first, ready, same⟩ := (inv.queued _).mp (queue ▸ List.mem_cons_self)
    exact entryOf_injective same ▸ ready
  · intro other ready
    have queued := (inv.queued _).mpr ⟨other, ready, rfl⟩
    grind

theorem ready_concat_iff {order : List Uint256} {h : Uint256}
    (greedy : Greedy provider.getParents allBlocks.toFinset (entryOf provider) order)
    (ready : Ready provider.getParents allBlocks.toFinset order h) (c : Uint256) :
    Ready provider.getParents allBlocks.toFinset (order ++ [h]) c ↔
      (Ready provider.getParents allBlocks.toFinset order c ∧ c ≠ h) ∨
        (c ∈ allBlocks ∧ 0 < (provider.getParents c).count h ∧
          missingParents provider allBlocks order c = (provider.getParents c).count h) := by
  obtain ⟨mem, unlisted, _⟩ := ready_iff.mp ready
  have missing := @missingParents_concat provider _ _ _ mem unlisted c
  have unlistedChild : 0 < (provider.getParents c).count h → c ∉ order ++ [h] := by
    intro child listed
    have edge := List.count_pos_iff.mp child
    rcases List.mem_append.mp listed with old | same
    · obtain ⟨emitted, rest, rfl⟩ := List.append_of_mem old
      have before := (greedy emitted c rest rfl).1.2.2 h edge (List.mem_toFinset.mpr mem)
      exact unlisted (List.mem_append_left _ before)
    · grind
  grind [ready_iff]

theorem takeBlock_order (children : Uint256 → List Uint256) (s : KahnState) (h : Uint256)
    (pq : List Entry) : (takeBlock provider children s h pq).order = s.order ++ [h] :=
  List.foldlRecOn (children h) (releaseChild provider)
    (motive := fun later : KahnState => later.order = s.order ++ [h]) rfl fun _ same _ _ => same

/-- **One round** lists the next block of the greedy order. -/
theorem KahnInv.takeBlock (distinct : allBlocks.Nodup) {s : KahnState}
    (inv : KahnInv provider allBlocks s) {h : Uint256} {pq : List Entry}
    (queue : s.pq = entryOf provider h :: pq) :
    KahnInv provider allBlocks
      (takeBlock provider (kahnGraph provider allBlocks).children s h pq) := by
  have next := inv.next queue
  obtain ⟨mem, unlisted, _⟩ := ready_iff.mp next.1
  have sorted := inv.queue.sorted
  have nodup := inv.queue.nodup
  rw [queue, List.pairwise_cons] at sorted
  rw [queue, List.nodup_cons] at nodup
  have counts : ∀ c, ((kahnGraph provider allBlocks).children h).count c
      = if c ∈ allBlocks then (provider.getParents c).count h else 0 :=
    kahnGraph_children distinct mem
  have children : ∀ c, c ∈ (kahnGraph provider allBlocks).children h ↔
      c ∈ allBlocks ∧ 0 < (provider.getParents c).count h :=
    fun _ => mem_kahnGraph_children distinct mem
  -- a child waits for the block at least as often as it lists it
  have enough : ∀ c ∈ (kahnGraph provider allBlocks).children h,
      (((kahnGraph provider allBlocks).children h).count c : Int) ≤ s.inDegree c := by
    intro c isChild
    have known := ((children c).mp isChild).1
    rw [counts, if_pos known, inv.degree c known, missingParents_concat mem unlisted]
    omega
  have rest : QueueInv provider { s with pq := pq, order := s.order ++ [h] } :=
    ⟨sorted.2, nodup.2, fun c isQueued =>
      inv.queue.released c (queue ▸ List.mem_cons_of_mem _ isQueued)⟩
  obtain ⟨queue', -, degrees, queued⟩ := foldl_releaseChild _ rest enough
  refine ⟨queue', ?_, ?_, ?_⟩
  · intro c known
    refine (degrees c).trans ?_
    rw [takeBlock_order, counts, if_pos known]
    have missing := @missingParents_concat provider _ _ _ mem unlisted c
    have before := inv.degree c known
    dsimp only
    omega
  · intro entry
    rw [takeBlock_order]
    refine (queued entry).trans ?_
    simp only [ready_concat_iff inv.greedy next.1]
    constructor
    · rintro (old | ⟨c, isChild, degree, rfl⟩)
      · obtain ⟨c, ready, rfl⟩ := (inv.queued entry).mp (queue ▸ List.mem_cons_of_mem _ old)
        refine ⟨c, .inl ⟨ready, ?_⟩, rfl⟩
        rintro rfl
        exact nodup.1 old
      · obtain ⟨known, child⟩ := (children c).mp isChild
        refine ⟨c, .inr ⟨known, child, ?_⟩, rfl⟩
        rw [counts, if_pos known, inv.degree c known] at degree
        exact_mod_cast degree
    · rintro ⟨c, ⟨ready, other⟩ | ⟨known, child, missing⟩, rfl⟩
      · have old := (inv.queued _).mpr ⟨c, ready, rfl⟩
        grind [entryOf_injective]
      · refine .inr ⟨c, (children c).mpr ⟨known, child⟩, ?_, rfl⟩
        rw [counts, if_pos known, inv.degree c known, missing]
  · rw [takeBlock_order]
    exact inv.greedy.concat next

theorem kahnLoop_ends (distinct : allBlocks.Nodup) {rounds : Nat} {s : KahnState}
    (inv : KahnInv provider allBlocks s) (enough : allBlocks.length ≤ rounds + s.order.length) :
    KahnInv provider allBlocks
        (kahnLoop provider (kahnGraph provider allBlocks).children rounds s) ∧
      (kahnLoop provider (kahnGraph provider allBlocks).children rounds s).pq = [] := by
  induction rounds generalizing s with
  | zero =>
    refine ⟨inv, ?_⟩
    rw [kahnLoop, List.eq_nil_iff_forall_not_mem]
    intro entry queued
    obtain ⟨h, ready, rfl⟩ := (inv.queued entry).mp queued
    have within : h :: s.order ⊆ allBlocks := by
      intro c listed
      rcases List.mem_cons.mp listed with rfl | old
      · exact List.mem_toFinset.mp ready.1
      · exact List.mem_toFinset.mp (inv.greedy.mem_nodes old)
    have nodup : (h :: s.order).Nodup := List.nodup_cons.mpr ⟨ready.2.1, inv.greedy.nodup⟩
    have fits := (List.subperm_of_subset nodup within).length_le
    rw [List.length_cons] at fits
    omega
  | succ rounds ih =>
    unfold kahnLoop
    split
    next nothing => exact ⟨inv, nothing⟩
    next top pq queue =>
      obtain ⟨h, _, rfl⟩ := (inv.queued top).mp (queue ▸ List.mem_cons_self)
      refine ih (inv.takeBlock distinct queue) ?_
      rw [takeBlock_order, List.length_append, List.length_singleton]
      omega

theorem topologicalOrder_greedy (distinct : allBlocks.Nodup) {degreeOrder : List Uint256}
    (sameKeys : degreeOrder.Perm allBlocks) :
    Greedy provider.getParents allBlocks.toFinset (entryOf provider)
        (topologicalOrder provider allBlocks degreeOrder) ∧
      ((∀ h ∈ allBlocks, h ∉ Past provider.getParents h) →
        ∀ h ∈ allBlocks, h ∈ topologicalOrder provider allBlocks degreeOrder) := by
  have start : KahnInv provider allBlocks
      (kahnStart provider (kahnGraph provider allBlocks).inDegree degreeOrder) :=
    kahnInv_start distinct sameKeys
  obtain ⟨inv, nothing⟩ := kahnLoop_ends distinct start (Nat.le_add_right allBlocks.length _)
  refine ⟨inv.greedy, fun acyclic h mem => ?_⟩
  by_contra unlisted
  obtain ⟨c, ready⟩ := exists_ready
    (fun node known => acyclic node (List.mem_toFinset.mp known)) (List.mem_toFinset.mpr mem)
    unlisted
  have queued := (inv.queued _).mpr ⟨c, ready, rfl⟩
  simp [nothing] at queued

end Loop

/-! ## The linear extension -/

/-- **`TopologicalOrder` is a deterministic linear extension.**  For a provider without cycles,
whatever its scores, and any set of blocks: every block is listed exactly once; the parents of a
block that are in the set stand before it; at every place stands the least block by score and
hash among those whose parents in the set are all listed; and the orders in which the unordered
containers are met do not matter. -/
theorem topologicalOrder_linearExtension (provider : IGhostdagBlockProvider)
    (acyclic : ∀ h, h ∉ Past provider.getParents h) (allBlocks degreeOrder : List Uint256)
    (isSet : allBlocks.Nodup) (sameKeys : degreeOrder.Perm allBlocks) :
    (topologicalOrder provider allBlocks degreeOrder).Nodup ∧
    (∀ h, h ∈ topologicalOrder provider allBlocks degreeOrder ↔ h ∈ allBlocks) ∧
    (∀ emitted h rest, topologicalOrder provider allBlocks degreeOrder = emitted ++ h :: rest →
      (∀ p ∈ provider.getParents h, p ∈ allBlocks → p ∈ emitted) ∧
      ∀ other ∈ allBlocks, other ∉ emitted →
        (∀ p ∈ provider.getParents other, p ∈ allBlocks → p ∈ emitted) →
        ScoreOrder (blueScoreOf provider) h other) ∧
    (∀ allBlocks' degreeOrder', allBlocks'.Perm allBlocks → degreeOrder'.Perm allBlocks →
      topologicalOrder provider allBlocks' degreeOrder'
        = topologicalOrder provider allBlocks degreeOrder) := by
  obtain ⟨greedy, complete⟩ := @topologicalOrder_greedy provider _ isSet _ sameKeys
  have listed := complete fun h _ => acyclic h
  refine ⟨greedy.nodup, fun h => ⟨fun mem => ?_, listed h⟩, ?_, ?_⟩
  · exact List.mem_toFinset.mp (greedy.mem_nodes mem)
  · intro emitted h rest split
    have next := greedy emitted h rest split
    refine ⟨fun p edge mem => next.1.2.2 p edge (List.mem_toFinset.mpr mem), ?_⟩
    intro other mem missing ready
    refine entryOf_le_iff.mp (next.2 other ⟨List.mem_toFinset.mpr mem, missing, ?_⟩)
    exact fun p edge known => ready p edge (List.mem_toFinset.mp known)
  · intro allBlocks' degreeOrder' sameBlocks sameKeys'
    obtain ⟨greedy', complete'⟩ := @topologicalOrder_greedy provider _
      (sameBlocks.nodup_iff.mpr isSet) _ (sameKeys'.trans sameBlocks.symm)
    have sameSet : allBlocks'.toFinset = allBlocks.toFinset := List.toFinset_eq_of_perm _ _ sameBlocks
    rw [sameSet] at greedy'
    refine greedy'.unique entryOf_injective greedy ?_ ?_
    · intro h mem
      exact complete' (fun c _ => acyclic c) h (sameBlocks.mem_iff.mpr (List.mem_toFinset.mp mem))
    · intro h mem
      exact listed h (List.mem_toFinset.mp mem)

def repeatedParent : IGhostdagBlockProvider where
  getGhostdagData h := if h = 2 then some { blueScore := 7 } else none
  getParents h := if h = 4 then [2, 3, 2] else if h = 2 ∨ h = 3 then [1] else []
  isAncestorOf _ _ := false
  getBlockWork _ := 1

theorem repeatedParent_acyclic (h : Uint256) : h ∉ Past repeatedParent.getParents h := by
  have below : ∀ child, ∀ parent ∈ repeatedParent.getParents child, parent < child := by
    intro child parent edge
    simp only [repeatedParent] at edge
    split at edge
    next top =>
      subst top
      have known : parent = 2 ∨ parent = 3 := by simpa [or_comm] using edge
      rcases known with rfl | rfl
      · decide
      · decide
    · split at edge
      next middle =>
        obtain rfl : parent = 1 := by simpa using edge
        rcases middle with rfl | rfl
        · decide
        · decide
      · cases edge
  have reached : ∀ other ∈ Past repeatedParent.getParents h, other < h := by
    intro other path
    induction path with
    | single edge => exact below h _ edge
    | tail _ edge ih => exact (below _ _ edge).trans ih
  exact fun cycle => lt_irrefl h (reached h cycle)

/-- Block `3` comes before `2`, whose score is higher, and `4` after both. -/
theorem topologicalOrder_repeatedParent :
    topologicalOrder repeatedParent [4, 3, 2, 1] [2, 1, 3, 4] = [1, 3, 2, 4] ∧
      topologicalOrder repeatedParent [1, 2, 3, 4] [4, 3, 2, 1] = [1, 3, 2, 4] := by
  have order : topologicalOrder repeatedParent [4, 3, 2, 1] [2, 1, 3, 4] = [1, 3, 2, 4] := by
    decide +kernel
  refine ⟨order, ?_⟩
  exact (topologicalOrder_linearExtension repeatedParent repeatedParent_acyclic [4, 3, 2, 1]
    [2, 1, 3, 4] (by decide) (by decide)).2.2.2 [1, 2, 3, 4] [4, 3, 2, 1] (by decide) (by decide)

end QuantBTC.Dag
