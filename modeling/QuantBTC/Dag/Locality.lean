/-
# Dag.Locality -- a score depends on the past only

Two providers that agree on a set of blocks closed under parents and selected parents
score a block with parents in that set alike, whatever else they hold.
-/
import QuantBTC.Dag.Ghostdag

namespace QuantBTC.Dag

set_option autoImplicit false

open Primitives Theory.ParentGraph

structure ProvidersAgree (provider other : IGhostdagBlockProvider) (blocks : Set Uint256) :
    Prop where
  closed : Closed provider.getParents blocks
  selected : ∀ block ∈ blocks, ∀ data, provider.getGhostdagData block = some data →
    data.selectedParent = 0 ∨ data.selectedParent ∈ blocks
  data : ∀ block ∈ blocks, other.getGhostdagData block = provider.getGhostdagData block
  parents : ∀ block ∈ blocks, other.getParents block = provider.getParents block
  ancestor : ∀ a ∈ blocks, ∀ b ∈ blocks, other.isAncestorOf a b = provider.isAncestorOf a b
  work : ∀ block ∈ blocks, other.getBlockWork block = provider.getBlockWork block

namespace ProvidersAgree

variable {provider other : IGhostdagBlockProvider} {blocks : Set Uint256}

variable {block : Uint256}

theorem blueScoreOf_eq (agree : ProvidersAgree provider other blocks) (mem : block ∈ blocks) :
    blueScoreOf other block = blueScoreOf provider block := by
  rw [blueScoreOf, blueScoreOf, agree.data block mem]

theorem selectBestParent_eq (agree : ProvidersAgree provider other blocks)
    {candidates : List Uint256} (inside : ∀ candidate ∈ candidates, candidate ∈ blocks) :
    selectBestParent other candidates = selectBestParent provider candidates := by
  cases candidates with
  | nil => rfl
  | cons first rest =>
    rw [List.forall_mem_cons] at inside
    obtain ⟨firstMem, inside⟩ := inside
    simp only [selectBestParent]
    induction rest generalizing first with
    | nil => rfl
    | cons candidate rest ih =>
      rw [List.forall_mem_cons] at inside
      have better : betterParent other first candidate = betterParent provider first candidate := by
        rw [betterParent, betterParent, agree.blueScoreOf_eq firstMem,
          agree.blueScoreOf_eq inside.1]
      grind [List.foldl_cons, betterParent]

theorem inheritedBlues_eq (agree : ProvidersAgree provider other blocks) (depth : Nat)
    {cur : Uint256} (mem : cur = 0 ∨ cur ∈ blocks) :
    inheritedBlues other depth cur = inheritedBlues provider depth cur := by
  induction depth generalizing cur with
  | zero => rfl
  | succ depth ih =>
    rw [inheritedBlues, inheritedBlues]
    by_cases null : cur = 0
    · rw [if_pos null, if_pos null]
    · have inside := mem.resolve_left null
      rw [if_neg null, if_neg null, agree.data cur inside]
      cases found : provider.getGhostdagData cur with
      | none => rfl
      | some data => simp [ih (agree.selected cur inside data found)]

theorem inheritedBlues_subset (agree : ProvidersAgree provider other blocks) {depth : Nat}
    {cur : Uint256} (mem : cur = 0 ∨ cur ∈ blocks) {inherited : List Uint256}
    (chain : inheritedBlues provider depth cur = some inherited) :
    ∀ block ∈ inherited, block ∈ blocks := by
  induction depth generalizing cur inherited with
  | zero =>
    cases chain
    exact fun block mem => nomatch mem
  | succ depth ih =>
    rw [inheritedBlues] at chain
    split at chain
    · cases chain
      exact fun block mem => nomatch mem
    next nonnull =>
      have inside := mem.resolve_left nonnull
      simp only [Option.bind_eq_bind, Option.bind_eq_some_iff] at chain
      obtain ⟨data, found, rest, further, same⟩ := chain
      cases same
      rw [List.forall_mem_cons]
      exact ⟨inside, ih (agree.selected cur inside data found) further⟩

/-! ## The mergeset -/

variable {selectedParent : Uint256}

theorem expandMergeset_eq (agree : ProvidersAgree provider other blocks) {cur : Uint256}
    (spMem : selectedParent ∈ blocks) (mem : cur ∈ blocks) (s : MergesetState) :
    expandMergeset other selectedParent cur s = expandMergeset provider selectedParent cur s := by
  have found : ∀ block ∈ fresh s.visited ((provider.getParents cur).filter (· ≠ 0)),
      block ∈ blocks := by
    intro block isFound
    exact agree.closed cur mem block (List.mem_filter.mp (mem_fresh.mp isFound).1).1
  have kept := List.filter_congr (p := (!other.isAncestorOf · selectedParent))
    (q := (!provider.isAncestorOf · selectedParent)) fun block isFound =>
      congrArg not (agree.ancestor block (found block isFound) selectedParent spMem)
  simp only [expandMergeset, agree.parents cur mem, kept]

theorem dropWhile_congr {p q : Uint256 → Bool} {queue : List Uint256}
    (same : ∀ block ∈ queue, p block = q block) : queue.dropWhile p = queue.dropWhile q := by
  induction queue with
  | nil => rfl
  | cons first rest ih =>
    rw [List.forall_mem_cons] at same
    rw [List.dropWhile_cons, List.dropWhile_cons, same.1, ih same.2]

theorem mergesetLoop_eq (agree : ProvidersAgree provider other blocks)
    (spMem : selectedParent ∈ blocks) (fuel : Nat) {s : MergesetState}
    (queued : ∀ block ∈ s.queue, block ∈ blocks) :
    mergesetLoop other selectedParent fuel s = mergesetLoop provider selectedParent fuel s := by
  induction fuel generalizing s with
  | zero => rfl
  | succ fuel ih =>
    have dropSame : s.queue.dropWhile (other.isAncestorOf · selectedParent)
        = s.queue.dropWhile (provider.isAncestorOf · selectedParent) :=
      dropWhile_congr fun block mem =>
        agree.ancestor block (queued block mem) selectedParent spMem
    rw [mergesetLoop, mergesetLoop, dropSame]
    split
    · rfl
    next cur queue dropped =>
      have suffix : cur :: queue <:+ s.queue := dropped ▸ List.dropWhile_suffix _
      have curMem := queued cur (suffix.subset (List.mem_cons_self ..))
      rw [agree.expandMergeset_eq spMem curMem]
      dsimp only
      split
      · rfl
      · refine ih fun block mem => ?_
        rcases List.mem_append.mp mem with old | new
        · exact queued block (suffix.subset (List.mem_cons_of_mem _ old))
        · exact agree.closed cur curMem block (List.mem_filter.mp (mem_fresh.mp new).1).1

variable {parents : List Uint256}

theorem reached_mem (agree : ProvidersAgree provider other blocks)
    (inside : ∀ parent ∈ parents, parent ∈ blocks) (reached : Reached provider parents block) :
    block ∈ blocks := by
  obtain ⟨parent, mem, rfl | below⟩ := reached
  · exact inside _ mem
  · exact agree.closed.past_subset (inside parent mem) below

theorem computeMergeset_eq (agree : ProvidersAgree provider other blocks)
    (inside : ∀ parent ∈ parents, parent ∈ blocks) (spMem : selectedParent ∈ blocks) :
    computeMergeset other parents selectedParent = computeMergeset provider parents selectedParent := by
  have queued : ∀ block ∈ (mergesetStart parents selectedParent).queue, block ∈ blocks :=
    fun block mem => inside block (mem_fresh.mp mem).1
  rw [computeMergeset, computeMergeset, agree.mergesetLoop_eq spMem _ queued]
  cases ended : mergesetLoop provider selectedParent (maxMergesetSize + 1)
      (mergesetStart parents selectedParent) with
  | none => rfl
  | some out =>
    obtain ⟨final, inv, _, rfl⟩ :=
      mergesetLoop_rule (fun _ _ _ inv dropped => inv.expand dropped) mergesetInv_start ended
    have members : ∀ block ∈ final.outMergeset, block ∈ blocks :=
      fun block mem => agree.reached_mem inside (inv.reached block mem)
    have sorted := List.map_insertionSort (ScoreOrder (blueScoreOf other))
      (s := ScoreOrder (blueScoreOf provider)) id final.outMergeset fun a aMem b bMem => by
        rw [ScoreOrder, ScoreOrder, agree.blueScoreOf_eq (members a aMem),
          agree.blueScoreOf_eq (members b bMem)]
        rfl
    simpa using sorted

/-! ## Colouring and score -/

theorem antiConeBlueCount_eq (agree : ProvidersAgree provider other blocks)
    {blueCandidates : List Uint256} (mem : block ∈ blocks)
    (inside : ∀ blue ∈ blueCandidates, blue ∈ blocks) :
    antiConeBlueCount other block blueCandidates
      = antiConeBlueCount provider block blueCandidates := by
  refine List.countP_congr fun blue isBlue => ?_
  rw [agree.ancestor blue (inside blue isBlue) block mem,
    agree.ancestor block mem blue (inside blue isBlue)]

theorem classifyMergeset_eq (agree : ProvidersAgree provider other blocks) (k : Nat)
    {currentBlues mergeset : List Uint256} (current : ∀ blue ∈ currentBlues, blue ∈ blocks)
    (inside : ∀ block ∈ mergeset, block ∈ blocks) :
    classifyMergeset other k currentBlues mergeset
      = classifyMergeset provider k currentBlues mergeset := by
  induction mergeset generalizing currentBlues with
  | nil => rfl
  | cons candidate rest ih =>
    rw [List.forall_mem_cons] at inside
    have grown : ∀ blue ∈ currentBlues ++ [candidate], blue ∈ blocks := by
      rw [List.forall_mem_append, List.forall_mem_singleton]
      exact ⟨current, inside.1⟩
    rw [classifyMergeset, classifyMergeset, agree.antiConeBlueCount_eq inside.1 current,
      ih grown inside.2, ih current inside.2]

theorem computeGhostdag_eq (agree : ProvidersAgree provider other blocks) (k : Nat)
    (inside : ∀ parent ∈ parents, parent ∈ blocks) :
    computeGhostdag other k parents = computeGhostdag provider k parents := by
  rw [computeGhostdag, computeGhostdag]
  by_cases empty : parents = []
  · rw [if_pos empty, if_pos empty]
  · have spMem := inside _ (selectBestParent_mem provider empty)
    rw [if_neg empty, if_neg empty, agree.selectBestParent_eq inside]
    dsimp only
    rw [agree.data _ spMem, agree.inheritedBlues_eq _ (.inr spMem),
      agree.computeMergeset_eq inside spMem]
    refine Option.bind_congr fun spData _ => Option.bind_congr fun inherited chain =>
      Option.bind_congr fun mergeset merged => ?_
    have current := agree.inheritedBlues_subset (.inr spMem) chain
    have members : ∀ block ∈ mergeset, block ∈ blocks := fun block mem =>
      agree.reached_mem inside ((computeMergeset_spec merged).reached block mem)
    rw [agree.classifyMergeset_eq k current members]
    have work : ∀ (blues : List Uint256) (total : UInt64), (∀ blue ∈ blues, blue ∈ blocks) →
        blues.foldl (fun work blue => work + other.getBlockWork blue) total
          = blues.foldl (fun work blue => work + provider.getBlockWork blue) total := by
      intro blues total inBlocks
      refine List.foldl_ext _ _ total fun work blue isBlue => ?_
      rw [agree.work blue (inBlocks blue isBlue)]
    rw [work _ _ fun blue isBlue => members blue (mem_classifyMergeset provider isBlue)]

end ProvidersAgree

/-! ## Mergesets are not read -/

def GhostdagData.bare (data : GhostdagData) : GhostdagData :=
  { data with mergesetBlues := [], mergesetReds := [] }

def IGhostdagBlockProvider.bare (provider : IGhostdagBlockProvider) : IGhostdagBlockProvider :=
  { provider with getGhostdagData := fun hash => (provider.getGhostdagData hash).map .bare }

section Bare

variable (provider : IGhostdagBlockProvider)

theorem blueScoreOf_bare : blueScoreOf provider.bare = blueScoreOf provider := by
  funext hash
  simp only [blueScoreOf, IGhostdagBlockProvider.bare]
  cases provider.getGhostdagData hash <;> rfl

theorem selectBestParent_bare (candidates : List Uint256) :
    selectBestParent provider.bare candidates = selectBestParent provider candidates := by
  have better : betterParent provider.bare = betterParent provider := by
    funext best candidate
    rw [betterParent, betterParent, blueScoreOf_bare]
  simp [selectBestParent, better]

theorem inheritedBlues_bare (depth : Nat) (cur : Uint256) :
    inheritedBlues provider.bare depth cur = inheritedBlues provider depth cur := by
  induction depth generalizing cur with
  | zero => rfl
  | succ depth ih =>
    rw [inheritedBlues, inheritedBlues]
    simp only [IGhostdagBlockProvider.bare] at ih ⊢
    cases provider.getGhostdagData cur with
    | none => rfl
    | some data => simp only [Option.map_some, Option.bind_eq_bind, Option.bind_some, ih]; rfl

theorem mergesetLoop_bare (selectedParent : Uint256) (fuel : Nat) (s : MergesetState) :
    mergesetLoop provider.bare selectedParent fuel s
      = mergesetLoop provider selectedParent fuel s := by
  induction fuel generalizing s with
  | zero => rfl
  | succ fuel ih =>
    rw [mergesetLoop, mergesetLoop]
    simp only [ih]
    rfl

theorem classifyMergeset_bare (k : Nat) (currentBlues mergeset : List Uint256) :
    classifyMergeset provider.bare k currentBlues mergeset
      = classifyMergeset provider k currentBlues mergeset := by
  induction mergeset generalizing currentBlues with
  | nil => rfl
  | cons candidate rest ih =>
    rw [classifyMergeset, classifyMergeset, ih, ih]
    rfl

theorem computeGhostdag_bare (k : Nat) (parents : List Uint256) :
    computeGhostdag provider.bare k parents = computeGhostdag provider k parents := by
  unfold computeGhostdag computeMergeset
  rw [selectBestParent_bare, blueScoreOf_bare]
  simp only [inheritedBlues_bare, mergesetLoop_bare, classifyMergeset_bare]
  split
  · rfl
  · simp only [IGhostdagBlockProvider.bare]
    cases provider.getGhostdagData (selectBestParent provider parents) <;> rfl

end Bare

end QuantBTC.Dag
