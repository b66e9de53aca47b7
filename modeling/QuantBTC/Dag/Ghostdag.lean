/-
# Dag.Ghostdag -- `GhostdagManager`

The scoring of a block from its parents: the selected parent, the mergeset, its
colouring and the blue score.  Blocks are known by hash and read through a provider,
as in the source; the null hash is `0`.

`blue_score` counts blocks and is a natural number; `blue_work` adds truncated proofs
of work and wraps as the source's `uint64_t` does.
-/
import QuantBTC.Primitives.Bytes
import QuantBTC.Theory.ParentGraph

namespace QuantBTC.Dag

set_option autoImplicit false

open Primitives Theory.ParentGraph

structure GhostdagData where
  blueScore : Nat := 0
  selectedParent : Uint256 := 0
  mergesetBlues : List Uint256 := []
  mergesetReds : List Uint256 := []
  blueWork : UInt64 := 0
deriving DecidableEq, Repr

structure IGhostdagBlockProvider where
  getGhostdagData : Uint256 → Option GhostdagData
  getParents : Uint256 → List Uint256
  isAncestorOf (ancestor block : Uint256) : Bool
  getBlockWork : Uint256 → UInt64

variable (provider : IGhostdagBlockProvider)

/-! ## The selected parent -/

def blueScoreOf (hash : Uint256) : Nat :=
  match provider.getGhostdagData hash with
  | none => 0
  | some data => data.blueScore

def betterParent (best candidate : Uint256) : Uint256 :=
  if blueScoreOf provider candidate > blueScoreOf provider best ∨
      (blueScoreOf provider candidate = blueScoreOf provider best ∧ candidate < best) then
    candidate
  else best

def selectBestParent : List Uint256 → Uint256
  | [] => 0
  | first :: rest => rest.foldl (betterParent provider) first

theorem selectBestParent_mem {candidates : List Uint256} (nonempty : candidates ≠ []) :
    selectBestParent provider candidates ∈ candidates := by
  cases candidates with
  | nil => exact absurd rfl nonempty
  | cons first rest =>
    refine List.foldlRecOn rest (betterParent provider)
      (motive := fun best => best ∈ first :: rest) (List.mem_cons_self ..) ?_
    grind [betterParent, List.mem_cons_of_mem]

theorem selectBestParent_best (candidates : List Uint256) : ∀ candidate ∈ candidates,
    blueScoreOf provider candidate < blueScoreOf provider (selectBestParent provider candidates) ∨
      (blueScoreOf provider candidate
          = blueScoreOf provider (selectBestParent provider candidates) ∧
        selectBestParent provider candidates ≤ candidate) := by
  cases candidates with
  | nil => simp
  | cons first rest =>
    simp only [selectBestParent]
    induction rest generalizing first with
    | nil => simp
    | cons next rest ih =>
      have best := ih (betterParent provider first next)
      rw [List.foldl_cons]
      rw [List.forall_mem_cons] at best
      obtain ⟨better, others⟩ := best
      rw [List.forall_mem_cons, List.forall_mem_cons]
      refine ⟨?_, ?_, others⟩
      · unfold betterParent at better ⊢
        split at better <;> split <;> grind
      · unfold betterParent at better ⊢
        split at better <;> split <;> grind

/-! ## The mergeset -/

structure MergesetState where
  visited : List Uint256
  outMergeset : List Uint256
  queue : List Uint256
deriving DecidableEq, Repr

def maxMergesetSize : Nat := 1000

def mergesetStart (parents : List Uint256) (selectedParent : Uint256) : MergesetState :=
  let roots := fresh [selectedParent] parents
  { visited := selectedParent :: roots, outMergeset := roots, queue := roots }

def expandMergeset (selectedParent cur : Uint256) (s : MergesetState) : MergesetState :=
  let found := fresh s.visited ((provider.getParents cur).filter (· ≠ 0))
  { visited := s.visited ++ found
    outMergeset := s.outMergeset ++ found.filter (!provider.isAncestorOf · selectedParent)
    queue := s.queue ++ found }

def mergesetLoop (selectedParent : Uint256) : Nat → MergesetState → Option (List Uint256)
  | 0, _ => none
  | fuel + 1, s =>
    match s.queue.dropWhile (provider.isAncestorOf · selectedParent) with
    | [] => some s.outMergeset
    | cur :: queue =>
      let s := expandMergeset provider selectedParent cur { s with queue }
      if maxMergesetSize ≤ s.outMergeset.length then none
      else mergesetLoop selectedParent fuel s

def ScoreOrder (score : Uint256 → Nat) (a b : Uint256) : Prop :=
  score a < score b ∨ (score a = score b ∧ a ≤ b)

instance (score : Uint256 → Nat) : DecidableRel (ScoreOrder score) :=
  fun _ _ => inferInstanceAs (Decidable (_ ∨ (_ ∧ _)))

def computeMergeset (parents : List Uint256) (selectedParent : Uint256) : Option (List Uint256) :=
  (mergesetLoop provider selectedParent (maxMergesetSize + 1)
    (mergesetStart parents selectedParent)).map
    (List.insertionSort (ScoreOrder (blueScoreOf provider)))

/-! ## Colouring -/

def antiConeBlueCount (block : Uint256) (blueCandidates : List Uint256) : Nat :=
  blueCandidates.countP fun blue =>
    blue ≠ block && !provider.isAncestorOf blue block && !provider.isAncestorOf block blue

def classifyMergeset (k : Nat) : List Uint256 → List Uint256 → List Uint256 × List Uint256
  | _, [] => ([], [])
  | currentBlues, candidate :: rest =>
    if antiConeBlueCount provider candidate currentBlues ≤ k then
      let (blues, reds) := classifyMergeset k (currentBlues ++ [candidate]) rest
      (candidate :: blues, reds)
    else
      let (blues, reds) := classifyMergeset k currentBlues rest
      (blues, candidate :: reds)

def inheritedBlues : Nat → Uint256 → Option (List Uint256)
  | 0, _ => some []
  | depth + 1, cur =>
    if cur = 0 then some []
    else do
      let data ← provider.getGhostdagData cur
      let rest ← inheritedBlues depth data.selectedParent
      some (cur :: rest)

def computeGhostdag (k : Nat) (parents : List Uint256) : Option GhostdagData :=
  if parents = [] then some {}
  else do
    let selectedParent := selectBestParent provider parents
    let spData ← provider.getGhostdagData selectedParent
    let inherited ← inheritedBlues provider (2 * k + 1) selectedParent
    let mergeset ← computeMergeset provider parents selectedParent
    let (blues, reds) := classifyMergeset provider k inherited mergeset
    some
      { blueScore := spData.blueScore + blues.length + 1
        selectedParent
        mergesetBlues := blues
        mergesetReds := reds
        blueWork := blues.foldl (fun work blue => work + provider.getBlockWork blue)
          spData.blueWork }

/-! ## What the search of the mergeset keeps -/

section Mergeset

variable {provider} {parents : List Uint256} {selectedParent : Uint256}

theorem mergesetLoop_rule {Inv : MergesetState → Prop}
    (step : ∀ s cur queue, Inv s →
      s.queue.dropWhile (provider.isAncestorOf · selectedParent) = cur :: queue →
      Inv (expandMergeset provider selectedParent cur { s with queue }))
    {fuel : Nat} {s : MergesetState} {out : List Uint256} (inv : Inv s)
    (ended : mergesetLoop provider selectedParent fuel s = some out) :
    ∃ final, Inv final ∧ final.queue.dropWhile (provider.isAncestorOf · selectedParent) = [] ∧
      final.outMergeset = out := by
  induction fuel generalizing s with
  | zero => cases ended
  | succ fuel ih => grind [mergesetLoop, Option.some.inj]

def Reached (provider : IGhostdagBlockProvider) (parents : List Uint256) (block : Uint256) : Prop :=
  ∃ parent ∈ parents, block = parent ∨ block ∈ Past provider.getParents parent

theorem Reached.parent {block parent : Uint256} (reached : Reached provider parents block)
    (mem : parent ∈ provider.getParents block) : Reached provider parents parent := by
  obtain ⟨root, rootMem, rfl | below⟩ := reached
  · exact ⟨block, rootMem, .inr (parent_mem_past mem)⟩
  · exact ⟨root, rootMem, .inr (past_trans below (parent_mem_past mem))⟩

structure MergesetInv (provider : IGhostdagBlockProvider) (parents : List Uint256)
    (selectedParent : Uint256) (s : MergesetState) : Prop where
  nodup : s.outMergeset.Nodup
  visited : ∀ block ∈ s.outMergeset, block ∈ s.visited
  selected : selectedParent ∈ s.visited
  selected_out : selectedParent ∉ s.outMergeset
  kept : ∀ block ∈ s.outMergeset,
    block ∈ parents ∨ provider.isAncestorOf block selectedParent = false
  queued : ∀ block ∈ s.queue, Reached provider parents block
  reached : ∀ block ∈ s.outMergeset, Reached provider parents block

theorem mergesetInv_start :
    MergesetInv provider parents selectedParent (mergesetStart parents selectedParent) where
  nodup := nodup_fresh _ _
  visited _ mem := List.mem_cons_of_mem _ mem
  selected := List.mem_cons_self ..
  selected_out mem := by simp [mergesetStart] at mem
  kept block mem := .inl (mem_fresh.mp mem).1
  queued block mem := ⟨block, (mem_fresh.mp mem).1, .inl rfl⟩
  reached block mem := ⟨block, (mem_fresh.mp mem).1, .inl rfl⟩

theorem MergesetInv.expand {s : MergesetState} {cur : Uint256} {queue : List Uint256}
    (inv : MergesetInv provider parents selectedParent s)
    (dropped : s.queue.dropWhile (provider.isAncestorOf · selectedParent) = cur :: queue) :
    MergesetInv provider parents selectedParent
      (expandMergeset provider selectedParent cur { s with queue }) := by
  have suffix : cur :: queue <:+ s.queue := dropped ▸ List.dropWhile_suffix _
  have curReached := inv.queued cur (suffix.subset (List.mem_cons_self ..))
  have foundReached : ∀ block ∈ fresh s.visited ((provider.getParents cur).filter (· ≠ 0)),
      Reached provider parents block := by
    intro block mem
    exact curReached.parent (List.mem_filter.mp (mem_fresh.mp mem).1).1
  refine ⟨?_, ?_, ?_, ?_, ?_, ?_, ?_⟩
  · refine List.nodup_append.mpr ⟨inv.nodup, (nodup_fresh _ _).filter _, ?_⟩
    rintro block old _ new rfl
    exact (mem_fresh.mp (List.mem_filter.mp new).1).2 (inv.visited block old)
  · intro block mem
    rcases List.mem_append.mp mem with old | new
    · exact List.mem_append_left _ (inv.visited block old)
    · exact List.mem_append_right _ (List.mem_filter.mp new).1
  · exact List.mem_append_left _ inv.selected
  · intro mem
    rcases List.mem_append.mp mem with old | new
    · exact inv.selected_out old
    · exact (mem_fresh.mp (List.mem_filter.mp new).1).2 inv.selected
  · intro block mem
    rcases List.mem_append.mp mem with old | new
    · exact inv.kept block old
    · exact .inr (by simpa using (List.mem_filter.mp new).2)
  · intro block mem
    rcases List.mem_append.mp mem with old | new
    · exact inv.queued block (suffix.subset (List.mem_cons_of_mem _ old))
    · exact foundReached block new
  · intro block mem
    rcases List.mem_append.mp mem with old | new
    · exact inv.reached block old
    · exact foundReached block (List.mem_filter.mp new).1

structure Expanded (provider : IGhostdagBlockProvider) (selectedParent : Uint256)
    (s : MergesetState) (expanded : List Uint256) : Prop where
  nodup : expanded.Nodup
  subset : ∀ block ∈ expanded, block ∈ s.outMergeset
  out_visited : ∀ block ∈ s.outMergeset, block ∈ s.visited
  queue_visited : ∀ block ∈ s.queue, block ∈ s.visited
  queue_nodup : s.queue.Nodup
  disjoint : ∀ block ∈ s.queue, block ∉ expanded
  pending : ∀ block ∈ s.queue, provider.isAncestorOf block selectedParent = false →
    block ∈ s.outMergeset

theorem expanded_start :
    Expanded provider selectedParent (mergesetStart parents selectedParent) [] := by
  have inv : MergesetInv provider parents selectedParent (mergesetStart parents selectedParent) :=
    mergesetInv_start
  exact ⟨List.nodup_nil, nofun, inv.visited, inv.visited, inv.nodup, fun _ _ => List.not_mem_nil,
    fun _ mem _ => mem⟩

theorem Expanded.length_le {s : MergesetState} {expanded : List Uint256}
    (inv : Expanded provider selectedParent s expanded) :
    expanded.length ≤ s.outMergeset.length :=
  (List.subperm_of_subset inv.nodup fun block mem => inv.subset block mem).length_le

theorem dropWhile_head {queue rest : List Uint256} {cur : Uint256}
    (dropped : queue.dropWhile (provider.isAncestorOf · selectedParent) = cur :: rest) :
    provider.isAncestorOf cur selectedParent = false := by
  have head := List.head_dropWhile_not (provider.isAncestorOf · selectedParent) (l := queue)
    (by rw [dropped]; exact List.cons_ne_nil _ _)
  simpa [dropped] using head

theorem Expanded.expand {s : MergesetState} {expanded queue : List Uint256} {cur : Uint256}
    (inv : Expanded provider selectedParent s expanded)
    (dropped : s.queue.dropWhile (provider.isAncestorOf · selectedParent) = cur :: queue) :
    Expanded provider selectedParent
      (expandMergeset provider selectedParent cur { s with queue }) (cur :: expanded) := by
  have suffix : cur :: queue <:+ s.queue := dropped ▸ List.dropWhile_suffix _
  have curQueued : cur ∈ s.queue := suffix.subset (List.mem_cons_self ..)
  have restQueued : ∀ block ∈ queue, block ∈ s.queue :=
    fun block mem => suffix.subset (List.mem_cons_of_mem _ mem)
  have notAncestor := dropWhile_head dropped
  have distinct : (cur :: queue).Nodup := inv.queue_nodup.sublist suffix.sublist
  refine ⟨?_, ?_, ?_, ?_, ?_, ?_, ?_⟩
  · exact List.nodup_cons.mpr ⟨inv.disjoint cur curQueued, inv.nodup⟩
  · intro block mem
    rcases List.mem_cons.mp mem with rfl | older
    · exact List.mem_append_left _ (inv.pending block curQueued notAncestor)
    · exact List.mem_append_left _ (inv.subset block older)
  · intro block mem
    rcases List.mem_append.mp mem with old | new
    · exact List.mem_append_left _ (inv.out_visited block old)
    · exact List.mem_append_right _ (List.mem_filter.mp new).1
  · intro block mem
    rcases List.mem_append.mp mem with old | new
    · exact List.mem_append_left _ (inv.queue_visited block (restQueued block old))
    · exact List.mem_append_right _ new
  · refine List.nodup_append.mpr ⟨(List.nodup_cons.mp distinct).2, nodup_fresh _ _, ?_⟩
    rintro block old _ new rfl
    exact (mem_fresh.mp new).2 (inv.queue_visited block (restQueued block old))
  · intro block mem again
    rcases List.mem_append.mp mem with old | new
    · rcases List.mem_cons.mp again with rfl | older
      · exact (List.nodup_cons.mp distinct).1 old
      · exact inv.disjoint block (restQueued block old) older
    · refine (mem_fresh.mp new).2 ?_
      rcases List.mem_cons.mp again with rfl | older
      · exact inv.queue_visited block curQueued
      · exact inv.out_visited block (inv.subset block older)
  · intro block mem other
    rcases List.mem_append.mp mem with old | new
    · exact List.mem_append_left _ (inv.pending block (restQueued block old) other)
    · exact List.mem_append_right _ (List.mem_filter.mpr ⟨new, by simp [other]⟩)

theorem mergesetLoop_succ {fuel : Nat} {s : MergesetState} {expanded : List Uint256}
    (inv : Expanded provider selectedParent s expanded)
    (enough : maxMergesetSize < fuel + expanded.length)
    (room : expanded = [] ∨ s.outMergeset.length < maxMergesetSize) :
    mergesetLoop provider selectedParent (fuel + 1) s
      = mergesetLoop provider selectedParent fuel s := by
  induction fuel generalizing s expanded with
  | zero =>
    rcases room with rfl | room
    · simp at enough
    · have fewer := inv.length_le
      omega
  | succ fuel ih =>
    rw [mergesetLoop]
    conv_rhs => rw [mergesetLoop]
    split
    · rfl
    next cur queue dropped =>
      dsimp only
      split
      · rfl
      next fits =>
        refine ih (inv.expand dropped) ?_ (.inr (by omega))
        rw [List.length_cons]
        omega

theorem mergesetLoop_start (fuel : Nat) (enough : maxMergesetSize < fuel) :
    mergesetLoop provider selectedParent fuel (mergesetStart parents selectedParent)
      = mergesetLoop provider selectedParent (maxMergesetSize + 1)
        (mergesetStart parents selectedParent) := by
  induction fuel, enough using Nat.le_induction with
  | base => rfl
  | succ fuel le ih =>
    exact (mergesetLoop_succ expanded_start (Nat.lt_of_succ_le le) (.inl rfl)).trans ih

structure IsMergeset (provider : IGhostdagBlockProvider) (parents : List Uint256)
    (selectedParent : Uint256) (mergeset : List Uint256) : Prop where
  nodup : mergeset.Nodup
  selected : selectedParent ∉ mergeset
  kept : ∀ block ∈ mergeset,
    block ∈ parents ∨ provider.isAncestorOf block selectedParent = false
  reached : ∀ block ∈ mergeset, Reached provider parents block

theorem computeMergeset_spec {mergeset : List Uint256}
    (computed : computeMergeset provider parents selectedParent = some mergeset) :
    IsMergeset provider parents selectedParent mergeset := by
  obtain ⟨out, ended, rfl⟩ := Option.map_eq_some_iff.mp computed
  obtain ⟨final, inv, _, rfl⟩ :=
    mergesetLoop_rule (fun _ _ _ inv dropped => inv.expand dropped) mergesetInv_start ended
  have perm := List.perm_insertionSort (ScoreOrder (blueScoreOf provider)) final.outMergeset
  exact ⟨perm.nodup_iff.mpr inv.nodup, fun mem => inv.selected_out (perm.mem_iff.mp mem),
    fun block mem => inv.kept block (perm.mem_iff.mp mem),
    fun block mem => inv.reached block (perm.mem_iff.mp mem)⟩

end Mergeset

/-! ## How a block is scored -/

theorem mem_classifyMergeset {k : Nat} {currentBlues mergeset : List Uint256} {block : Uint256}
    (mem : block ∈ (classifyMergeset provider k currentBlues mergeset).1) : block ∈ mergeset := by
  induction mergeset generalizing currentBlues with
  | nil => cases mem
  | cons candidate rest ih => grind [classifyMergeset, List.mem_cons_self, List.mem_cons_of_mem]

theorem nodup_classifyMergeset {k : Nat} {currentBlues mergeset : List Uint256}
    (nodup : mergeset.Nodup) : (classifyMergeset provider k currentBlues mergeset).1.Nodup := by
  induction mergeset generalizing currentBlues with
  | nil => exact List.nodup_nil
  | cons candidate rest ih => grind [List.nodup_cons, classifyMergeset, mem_classifyMergeset]

structure Scored (provider : IGhostdagBlockProvider) (k : Nat) (parents : List Uint256)
    (data : GhostdagData) (spData : GhostdagData) (inherited mergeset : List Uint256) : Prop where
  selected : data.selectedParent = selectBestParent provider parents
  selected_data : provider.getGhostdagData data.selectedParent = some spData
  chain : inheritedBlues provider (2 * k + 1) data.selectedParent = some inherited
  merged : computeMergeset provider parents data.selectedParent = some mergeset
  blues : data.mergesetBlues = (classifyMergeset provider k inherited mergeset).1
  score : data.blueScore = spData.blueScore + data.mergesetBlues.length + 1

theorem computeGhostdag_cases {k : Nat} {parents : List Uint256} {data : GhostdagData}
    (computed : computeGhostdag provider k parents = some data) :
    (parents = [] ∧ data = {}) ∨
      (parents ≠ [] ∧ ∃ spData inherited mergeset,
        Scored provider k parents data spData inherited mergeset) := by
  unfold computeGhostdag at computed
  split at computed
  next empty => exact .inl ⟨empty, (Option.some.inj computed).symm⟩
  next nonempty =>
    simp only [Option.bind_eq_bind, Option.bind_eq_some_iff] at computed
    obtain ⟨spData, found, inherited, chain, mergeset, merged, scored⟩ := computed
    cases scored
    exact .inr ⟨nonempty, spData, inherited, mergeset, rfl, found, chain, merged, rfl, rfl⟩

theorem computeGhostdag_blueWork {k : Nat} {parents : List Uint256} {data : GhostdagData}
    (nonempty : parents ≠ []) (computed : computeGhostdag provider k parents = some data) :
    ∃ spData, provider.getGhostdagData data.selectedParent = some spData ∧
      data.blueWork = data.mergesetBlues.foldl
        (fun work blue => work + provider.getBlockWork blue) spData.blueWork := by
  rw [computeGhostdag, if_neg nonempty] at computed
  simp only [Option.bind_eq_bind, Option.bind_eq_some_iff] at computed
  grind

end QuantBTC.Dag
