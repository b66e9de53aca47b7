/-
# Dag.DepthCap -- the cut of the selected-parent chain changes no colour

`ComputeGhostdag` passes the first `2K + 1` blocks of the selected-parent chain to
`ClassifyMergeset`.  The rest of the chain need not be in the past of a candidate.  But the
blocks of the chain that are in its anticone are the first ones, since what lies below a block
in the candidate's past is in that past too; so once the cut drops one of them, `2K + 1` are
left and the candidate is red either way.
-/
import QuantBTC.Dag.Mergeset
import QuantBTC.Dag.ScoreOrder

namespace QuantBTC.Dag

set_option autoImplicit false

open Primitives Theory.ParentGraph

variable (provider : IGhostdagBlockProvider)

/-! ## Chains -/

def selectedParentChain : Nat → Uint256 → List Uint256
  | 0, _ => []
  | depth + 1, cur =>
    if cur = 0 then []
    else
      match provider.getGhostdagData cur with
      | none => [cur]
      | some data => cur :: selectedParentChain depth data.selectedParent

inductive SelectedChain : Uint256 → List Uint256 → Prop where
  | null {cur : Uint256} (isNull : cur = 0) : SelectedChain cur []
  | block {cur : Uint256} {data : GhostdagData} {rest : List Uint256} (notNull : cur ≠ 0)
      (found : provider.getGhostdagData cur = some data)
      (below : SelectedChain data.selectedParent rest) : SelectedChain cur (cur :: rest)

structure FiniteDag (blocks : Finset Uint256) : Prop where
  reachability : Reachability provider
  closed : Closed provider.getParents blocks
  acyclic : ∀ block ∈ blocks, block ∉ Past provider.getParents block
  notNull : 0 ∉ blocks
  scored : ∀ block ∈ blocks, ∃ data, provider.getGhostdagData block = some data ∧
    (data.selectedParent = 0 ∨ data.selectedParent ∈ provider.getParents block)

variable {provider} {blocks : Finset Uint256}

theorem FiniteDag.exists_chain (dag : FiniteDag provider blocks) :
    ∀ block ∈ blocks, ∃ chain, SelectedChain provider block chain := by
  refine past_induction dag.closed dag.acyclic
    (motive := fun block => ∃ chain, SelectedChain provider block chain) ?_
  intro block mem parentChains
  obtain ⟨data, found, root | edge⟩ := dag.scored block mem
  · exact ⟨[block], .block (fun null => dag.notNull (null ▸ mem)) found (.null root)⟩
  · obtain ⟨chain, below⟩ := parentChains _ edge
    exact ⟨block :: chain, .block (fun null => dag.notNull (null ▸ mem)) found below⟩

variable {cur : Uint256} {chain : List Uint256}

theorem SelectedChain.inheritedBlues_eq (isChain : SelectedChain provider cur chain) (depth : Nat) :
    inheritedBlues provider depth cur = some (chain.take depth) := by
  induction isChain generalizing depth with
  | null isNull => cases depth <;> simp [inheritedBlues, isNull]
  | block notNull found below ih =>
    cases depth with
    | zero => rfl
    | succ depth => simp [inheritedBlues, notNull, found, ih]

theorem SelectedChain.selectedParentChain_eq (isChain : SelectedChain provider cur chain)
    (depth : Nat) : selectedParentChain provider depth cur = chain.take depth := by
  induction isChain generalizing depth with
  | null isNull => cases depth <;> simp [selectedParentChain, isNull]
  | block notNull found below ih =>
    cases depth with
    | zero => rfl
    | succ depth => simp [selectedParentChain, notNull, found, ih]

theorem SelectedChain.tail_subset_past (dag : FiniteDag provider blocks)
    (isChain : SelectedChain provider cur chain) (mem : cur ∈ blocks) :
    ∀ block ∈ chain.tail, block ∈ Past provider.getParents cur := by
  induction isChain with
  | null _ => simp
  | @block cur data rest notNull found below ih =>
    obtain ⟨data', found', selected⟩ := dag.scored cur mem
    cases found.symm.trans found'
    intro block isBelow
    cases below with
    | null _ => cases isBelow
    | block spNotNull spFound further =>
      have edge := selected.resolve_left spNotNull
      rcases List.mem_cons.mp isBelow with rfl | later
      · exact parent_mem_past edge
      · exact past_trans (parent_mem_past edge)
          (ih (dag.closed cur mem _ edge) block later)

/-! ## The anticone along a chain -/

theorem countP_take_of_downward {α : Type} {p : α → Bool} {l : List α}
    (downward : l.Pairwise fun earlier later => p later = true → p earlier = true) (n : Nat) :
    (l.take n).countP p = min n (l.countP p) := by
  induction l generalizing n with
  | nil => simp
  | cons first rest ih =>
    rw [List.pairwise_cons] at downward
    cases n with
    | zero => simp
    | succ n =>
      rw [List.take_succ_cons, List.countP_cons, List.countP_cons, ih downward.2]
      by_cases holds : p first = true
      · simp only [holds, if_true]
        omega
      · have none : rest.countP p = 0 :=
          List.countP_eq_zero.mpr fun later mem isLater => holds (downward.1 later mem isLater)
        simp [holds, none]

def inAnticone (provider : IGhostdagBlockProvider) (block blue : Uint256) : Bool :=
  blue ≠ block && !provider.isAncestorOf blue block && !provider.isAncestorOf block blue

theorem inAnticone_iff (reach : Reachability provider) {block blue : Uint256} :
    inAnticone provider block blue = true ↔
      blue ≠ block ∧ blue ∉ Past provider.getParents block ∧
        block ∉ Past provider.getParents blue := by
  simp only [inAnticone, Bool.and_eq_true, decide_eq_true_eq, Bool.not_eq_true', and_assoc]
  refine and_congr_right fun other => and_congr ?_ ?_
  · rw [← Bool.not_eq_true, reach.ancestor blue block other]
  · rw [← Bool.not_eq_true, reach.ancestor block blue (Ne.symm other)]

theorem SelectedChain.anticone_downward (dag : FiniteDag provider blocks)
    (isChain : SelectedChain provider cur chain) (mem : cur ∈ blocks) {candidate : Uint256}
    (outside : candidate ∉ Past provider.getParents cur) :
    chain.Pairwise fun earlier later =>
      inAnticone provider candidate later = true → inAnticone provider candidate earlier = true := by
  induction isChain with
  | null _ => exact .nil
  | @block cur data rest notNull found below ih =>
    have tail := (SelectedChain.block notNull found below).tail_subset_past dag mem
    rw [List.pairwise_cons]
    constructor
    · intro later isBelow
      rw [inAnticone_iff dag.reachability, inAnticone_iff dag.reachability]
      grind [past_trans]
    · cases below with
      | null _ => exact .nil
      | block spNotNull spFound further =>
        have reached := tail _ List.mem_cons_self
        exact ih (dag.closed.past_subset mem reached)
          fun higher => outside (past_trans reached higher)

/-! ## The colours -/

theorem classifyMergeset_congr {k : Nat} {one two : List Uint256} {candidates : List Uint256}
    (alike : ∀ candidate ∈ candidates, ∀ more,
      antiConeBlueCount provider candidate (one ++ more) ≤ k ↔
        antiConeBlueCount provider candidate (two ++ more) ≤ k) :
    classifyMergeset provider k one candidates = classifyMergeset provider k two candidates := by
  have extended : ∀ more, classifyMergeset provider k (one ++ more) candidates
      = classifyMergeset provider k (two ++ more) candidates := by
    induction candidates with
    | nil => exact fun _ => rfl
    | cons candidate rest ih =>
      intro more
      rw [List.forall_mem_cons] at alike
      grind [List.append_assoc, classifyMergeset]
  simpa using extended []

/-- **The depth cap is harmless.**  In every finite DAG and for every `K`, the chain that
`ComputeGhostdag` inherits from a selected parent is the first `2K + 1` blocks of its whole
selected-parent chain, as `SelectedParentChain` collects it; and any list of candidates none of
which is an ancestor of the selected parent is coloured by it as by the whole chain. -/
theorem classifyMergeset_depthCap (k : Nat) (provider : IGhostdagBlockProvider)
    (blocks : Finset Uint256) (dag : FiniteDag provider blocks) (selectedParent : Uint256)
    (mem : selectedParent ∈ blocks) :
    ∃ whole, SelectedChain provider selectedParent whole ∧
      inheritedBlues provider (2 * k + 1) selectedParent = some (whole.take (2 * k + 1)) ∧
      selectedParentChain provider (2 * k + 1) selectedParent = whole.take (2 * k + 1) ∧
      ∀ candidates : List Uint256,
        (∀ candidate ∈ candidates, candidate ∉ Past provider.getParents selectedParent) →
        classifyMergeset provider k (whole.take (2 * k + 1)) candidates
          = classifyMergeset provider k whole candidates := by
  obtain ⟨whole, isChain⟩ := dag.exists_chain selectedParent mem
  refine ⟨whole, isChain, isChain.inheritedBlues_eq _, isChain.selectedParentChain_eq _, ?_⟩
  intro candidates outside
  apply classifyMergeset_congr
  intro candidate isCandidate more
  have downward := isChain.anticone_downward dag mem (outside candidate isCandidate)
  have cut := countP_take_of_downward downward (2 * k + 1)
  have count : ∀ blues, antiConeBlueCount provider candidate blues
      = blues.countP (inAnticone provider candidate) := fun _ => rfl
  rw [count, count, List.countP_append, List.countP_append, cut]
  omega

/-! ## Built DAGs -/

theorem BlockDag.Built.finiteDag {k : Nat} {Meets : BlockDag → List Uint256 → Prop}
    {dag : BlockDag} (built : dag.Built k Meets) :
    FiniteDag dag.provider dag.hashes.toFinset where
  reachability := built.reachability
  closed := by
    intro block mem parent edge
    simp only [List.coe_toFinset] at mem ⊢
    exact built.topological.closed block mem parent edge
  acyclic block mem := built.acyclic (List.mem_toFinset.mp mem)
  notNull mem := built.ne_zero (List.mem_toFinset.mp mem) rfl
  scored _ mem := built.selected (List.mem_toFinset.mp mem)

/-- Without room for a blue block in its anticone, the sibling is red against the head of the
chain as against the whole chain. -/
theorem classifyMergeset_depthCap_siblings :
    classifyMergeset BlockDag.chainAndSibling.provider 0 [3] [4] = ([], [4]) ∧
      classifyMergeset BlockDag.chainAndSibling.provider 0 [3, 2, 1] [4] = ([], [4]) := by
  have dag := BlockDag.built_chainAndSibling.finiteDag
  obtain ⟨whole, isChain, _, _, same⟩ := classifyMergeset_depthCap 0
    BlockDag.chainAndSibling.provider _ dag 3 (by decide +kernel)
  have deeper : inheritedBlues BlockDag.chainAndSibling.provider 4 3 = some [3, 2, 1] := by
    decide +kernel
  have cut := Option.some.inj ((isChain.inheritedBlues_eq 4).symm.trans deeper)
  have short : whole.length = 3 := by
    grind [List.length, List.length_take, List.length_cons, List.length_nil]
  obtain rfl : whole = [3, 2, 1] := by rwa [List.take_of_length_le (by omega)] at cut
  have head : classifyMergeset BlockDag.chainAndSibling.provider 0 [3] [4] = ([], [4]) := by
    decide +kernel
  refine ⟨head, (same [4] ?_).symm.trans head⟩
  intro candidate isCandidate
  rw [List.mem_singleton] at isCandidate
  rw [isCandidate]
  exact fun below => absurd ((BlockDag.past_chainHead 4).mp below) (by decide)

end QuantBTC.Dag
