/-
# Dag.GhostdagBlockindex -- the provider backed by the block index

`BlockIndexGhostdagProvider` reads five fields of a block index entry; a view gives
them for each hash.  Its ancestor query walks `pprev`, then searches parents from the
descendant down, leaving out what is not above the ancestor's height, and gives up at
`MAX_ANCESTOR_BFS_NODES` visited blocks.
-/
import QuantBTC.Dag.Locality
import QuantBTC.Pow.Compact

namespace QuantBTC.Dag

set_option autoImplicit false

open Primitives Theory.ParentGraph

@[ext]
structure DagEntry where
  pprev : Option Uint256
  nHeight : Nat
  nBits : UInt32
  vDagParents : List Uint256
  dagData : GhostdagData
deriving DecidableEq, Repr

def DagEntry.parents (entry : DagEntry) : List Uint256 := entry.pprev.toList ++ entry.vDagParents

abbrev DagView := Uint256 → Option DagEntry

namespace DagView

variable (view : DagView)

def getParents (hash : Uint256) : List Uint256 :=
  match view hash with
  | none => []
  | some entry => entry.parents

def heightOf (hash : Uint256) : Nat :=
  match view hash with
  | none => 0
  | some entry => entry.nHeight

def getBlockWork (hash : Uint256) : UInt64 :=
  match view hash with
  | none => 0
  | some entry =>
    let w := UInt64.ofNat (Pow.getBlockProof entry.nBits)
    if w > 0 then w else 1

def walkDown (height : Nat) : Nat → Option Uint256 → Option Uint256
  | 0, walk => walk
  | _ + 1, none => none
  | fuel + 1, some hash =>
    match view hash with
    | none => none
    | some entry => if entry.nHeight > height then walkDown height fuel entry.pprev else some hash

def maxAncestorBfsNodes : Nat := 500000

def searchAncestor (ancestor : Uint256) : Nat → List Uint256 → List Uint256 → Bool
  | 0, _, _ => false
  | _ + 1, _, [] => false
  | fuel + 1, visited, cur :: queue =>
    if maxAncestorBfsNodes < visited.length then false
    else if ancestor ∈ view.getParents cur then true
    else
      let found := fresh visited (view.getParents cur)
      searchAncestor ancestor fuel (visited ++ found)
        (queue ++ found.filter (view.heightOf ancestor < view.heightOf ·))

def isBlockAncestor (ancestor block : Uint256) : Bool :=
  if ancestor = block then true
  else if view.heightOf ancestor > view.heightOf block then false
  else if view.walkDown (view.heightOf ancestor) (view.heightOf block) (some block) = some ancestor
  then true
  else view.searchAncestor ancestor (maxAncestorBfsNodes + 1) [block] [block]

def provider : IGhostdagBlockProvider where
  getGhostdagData hash := (view hash).map (·.dagData)
  getParents := view.getParents
  isAncestorOf ancestor block :=
    (view ancestor).isSome && (view block).isSome && view.isBlockAncestor ancestor block
  getBlockWork := view.getBlockWork

/-! ## The search ends by itself -/

variable {view} {ancestor : Uint256}

theorem searchAncestor_succ {fuel : Nat} {visited queue : List Uint256} (looked : List Uint256)
    (lookedNodup : (looked ++ queue).Nodup)
    (inVisited : ∀ block ∈ looked ++ queue, block ∈ visited)
    (enough : maxAncestorBfsNodes < fuel + looked.length) :
    view.searchAncestor ancestor (fuel + 1) visited queue
      = view.searchAncestor ancestor fuel visited queue := by
  induction fuel generalizing visited queue looked with
  | zero =>
    have few := (List.subperm_of_subset lookedNodup inVisited).length_le
    rw [List.length_append] at few
    cases queue with
    | nil => rfl
    | cons cur queue =>
      exact if_pos (by omega)
  | succ fuel ih =>
    cases queue with
    | nil => rfl
    | cons cur queue =>
      rw [searchAncestor]
      conv_rhs => rw [searchAncestor]
      split
      · rfl
      · split
        · rfl
        · refine ih (looked ++ [cur]) ?_ ?_ ?_
          · rw [← List.append_assoc, List.append_assoc looked, List.singleton_append]
            refine List.nodup_append.mpr ⟨lookedNodup, (nodup_fresh _ _).filter _, ?_⟩
            rintro block old _ new rfl
            exact (mem_fresh.mp (List.mem_filter.mp new).1).2 (inVisited block old)
          · intro block mem
            rw [← List.append_assoc, List.append_assoc looked, List.singleton_append] at mem
            rcases List.mem_append.mp mem with old | new
            · exact List.mem_append_left _ (inVisited block old)
            · exact List.mem_append_right _ (List.mem_filter.mp new).1
          · rw [List.length_append, List.length_singleton]
            omega

theorem searchAncestor_start {block : Uint256} (fuel : Nat) (enough : maxAncestorBfsNodes < fuel) :
    view.searchAncestor ancestor fuel [block] [block]
      = view.searchAncestor ancestor (maxAncestorBfsNodes + 1) [block] [block] := by
  induction fuel, enough using Nat.le_induction with
  | base => rfl
  | succ fuel le ih =>
    exact (searchAncestor_succ [] (List.nodup_singleton _) (fun _ mem => mem) le).trans ih

/-! ## Locality -/

section Locality

variable {other : DagView} {blocks : Set Uint256}
  (closed : Closed view.getParents blocks) (agree : ∀ block ∈ blocks, other block = view block)
include agree

theorem getParents_eq {block : Uint256} (mem : block ∈ blocks) :
    other.getParents block = view.getParents block := by
  rw [getParents, getParents, agree block mem]

theorem heightOf_eq {block : Uint256} (mem : block ∈ blocks) :
    other.heightOf block = view.heightOf block := by
  rw [heightOf, heightOf, agree block mem]

include closed

theorem walkDown_eq (height fuel : Nat) {block : Uint256} (mem : block ∈ blocks) :
    other.walkDown height fuel (some block) = view.walkDown height fuel (some block) := by
  induction fuel generalizing block with
  | zero => rfl
  | succ fuel ih =>
    rw [walkDown, walkDown, agree block mem]
    cases found : view block with
    | none => rfl
    | some entry =>
      dsimp only
      split
      · cases prev : entry.pprev with
        | none => cases fuel <;> rfl
        | some parent =>
          refine ih (closed block mem parent ?_)
          simp [getParents, found, DagEntry.parents, prev]
      · rfl

theorem searchAncestor_eq (ancestorMem : ancestor ∈ blocks) (fuel : Nat)
    {visited queue : List Uint256} (queued : ∀ block ∈ queue, block ∈ blocks) :
    other.searchAncestor ancestor fuel visited queue
      = view.searchAncestor ancestor fuel visited queue := by
  induction fuel generalizing visited queue with
  | zero => rfl
  | succ fuel ih =>
    cases queue with
    | nil => rfl
    | cons cur queue =>
      rw [List.forall_mem_cons] at queued
      have found : ∀ block ∈ fresh visited (view.getParents cur), block ∈ blocks :=
        fun block mem => closed cur queued.1 block (mem_fresh.mp mem).1
      have above := List.filter_congr
        (p := fun block => decide (other.heightOf ancestor < other.heightOf block))
        (q := fun block => decide (view.heightOf ancestor < view.heightOf block))
        fun block mem => by
          rw [heightOf_eq agree ancestorMem, heightOf_eq agree (found block mem)]
      rw [searchAncestor, searchAncestor, getParents_eq agree queued.1]
      grind

theorem isBlockAncestor_eq {block : Uint256} (ancestorMem : ancestor ∈ blocks)
    (mem : block ∈ blocks) :
    other.isBlockAncestor ancestor block = view.isBlockAncestor ancestor block := by
  have queued : ∀ queued ∈ [block], queued ∈ blocks := by simpa using mem
  grind [isBlockAncestor, heightOf_eq, walkDown_eq, searchAncestor_eq]

theorem provider_agrees
    (selected : ∀ block ∈ blocks, ∀ entry, view block = some entry →
      entry.dagData.selectedParent = 0 ∨ entry.dagData.selectedParent ∈ blocks) :
    ProvidersAgree view.provider other.provider blocks where
  closed := closed
  selected block mem data found := by
    obtain ⟨entry, isEntry, rfl⟩ := Option.map_eq_some_iff.mp found
    exact selected block mem entry isEntry
  data block mem := congrArg (Option.map _) (agree block mem)
  parents block mem := getParents_eq agree mem
  ancestor a aMem b bMem := by grind [provider, isBlockAncestor_eq]
  work block mem := by
    dsimp only [provider]
    rw [getBlockWork, getBlockWork, agree block mem]

end Locality

/-! ## Mergesets are not read -/

section Bare

def bare (view : DagView) : DagView := fun hash =>
  (view hash).map fun entry => { entry with dagData := entry.dagData.bare }

variable (view)

theorem getParents_bare : view.bare.getParents = view.getParents := by
  funext hash
  simp only [getParents, bare]
  cases view hash <;> rfl

theorem heightOf_bare : view.bare.heightOf = view.heightOf := by
  funext hash
  simp only [heightOf, bare]
  cases view hash <;> rfl

theorem walkDown_bare (height fuel : Nat) (walk : Option Uint256) :
    view.bare.walkDown height fuel walk = view.walkDown height fuel walk := by
  induction fuel generalizing walk with
  | zero => rfl
  | succ fuel ih =>
    cases walk with
    | none => rfl
    | some hash => grind [walkDown, bare, Option.map_some]

theorem searchAncestor_bare (ancestor : Uint256) (fuel : Nat) (visited queue : List Uint256) :
    view.bare.searchAncestor ancestor fuel visited queue
      = view.searchAncestor ancestor fuel visited queue := by
  induction fuel generalizing visited queue with
  | zero => rfl
  | succ fuel ih =>
    cases queue with
    | nil => rfl
    | cons cur queue =>
      rw [searchAncestor, searchAncestor]
      simp only [ih, getParents_bare, heightOf_bare]

theorem provider_bare : view.bare.provider = view.provider.bare := by
  have ancestor : view.bare.isBlockAncestor = view.isBlockAncestor := by
    funext ancestor block
    simp only [isBlockAncestor, heightOf_bare, walkDown_bare, searchAncestor_bare]
  have known : ∀ hash, (view.bare hash).isSome = (view hash).isSome := fun hash =>
    Option.isSome_map
  have work : view.bare.getBlockWork = view.getBlockWork := by
    funext hash
    simp only [getBlockWork, bare]
    cases view hash <;> rfl
  simp only [provider, IGhostdagBlockProvider.bare, ancestor, known, work, getParents_bare]
  congr 1
  funext hash
  simp only [bare, Option.map_map]
  rfl

variable {view}

theorem computeGhostdag_congr {other : DagView} {blocks : Set Uint256}
    (closed : Closed view.getParents blocks)
    (selected : ∀ block ∈ blocks, ∀ entry, view block = some entry →
      entry.dagData.selectedParent = 0 ∨ entry.dagData.selectedParent ∈ blocks)
    (agree : ∀ block ∈ blocks, other.bare block = view.bare block) (k : Nat)
    {parents : List Uint256} (inside : ∀ parent ∈ parents, parent ∈ blocks) :
    computeGhostdag other.provider k parents = computeGhostdag view.provider k parents := by
  have agrees : ProvidersAgree view.bare.provider other.bare.provider blocks := by
    refine provider_agrees (by rw [getParents_bare]; exact closed) agree ?_
    intro block mem entry found
    obtain ⟨full, isFull, rfl⟩ := Option.map_eq_some_iff.mp found
    exact selected block mem full isFull
  have same := agrees.computeGhostdag_eq k inside
  rwa [provider_bare, provider_bare, computeGhostdag_bare, computeGhostdag_bare] at same

end Bare

end DagView

end QuantBTC.Dag
