/-
# Dag.Build -- DAGs built block by block

A DAG as `ComputeGhostdag` sees it when its ancestor query is reachability itself: the
blocks with their data, newest first, each scored against the blocks before it.
-/
import QuantBTC.Dag.Ghostdag

namespace QuantBTC.Dag

set_option autoImplicit false

open Primitives Theory.ParentGraph

structure DagBlock where
  hash : Uint256
  parents : List Uint256
  work : UInt64 := 1
  data : GhostdagData := {}
deriving DecidableEq, Repr

abbrev BlockDag := List DagBlock

namespace BlockDag

def hashes (dag : BlockDag) : List Uint256 := dag.map (·.hash)

def find (dag : BlockDag) (hash : Uint256) : Option DagBlock := dag.find? (·.hash == hash)

def parentsOf (dag : BlockDag) (hash : Uint256) : List Uint256 :=
  match dag.find hash with
  | none => []
  | some block => block.parents

def pastOf : BlockDag → Uint256 → Finset Uint256
  | [], _ => ∅
  | block :: rest, hash =>
    if block.hash = hash then
      block.parents.toFinset.biUnion fun parent => insert parent (pastOf rest parent)
    else pastOf rest hash

def provider (dag : BlockDag) : IGhostdagBlockProvider where
  getGhostdagData hash := (dag.find hash).map (·.data)
  getParents := dag.parentsOf
  isAncestorOf ancestor block := ancestor == block || decide (ancestor ∈ dag.pastOf block)
  getBlockWork hash :=
    match dag.find hash with
    | none => 0
    | some block => block.work

def add (k : Nat) (dag : BlockDag) (hash : Uint256) (parents : List Uint256) (work : UInt64) :
    Option BlockDag :=
  if hash = 0 ∨ hash ∈ dag.hashes ∨ parents.any (· ∉ dag.hashes) then none
  else (computeGhostdag dag.provider k parents).map fun data =>
    { hash, parents, work, data } :: dag

variable {hash : Uint256}

theorem add_cases {k : Nat} {dag dag' : BlockDag} {parents : List Uint256} {work : UInt64}
    (added : dag.add k hash parents work = some dag') :
    hash ≠ 0 ∧ hash ∉ dag.hashes ∧ (∀ parent ∈ parents, parent ∈ dag.hashes) ∧
      ∃ data, computeGhostdag dag.provider k parents = some data ∧
        dag' = { hash, parents, work, data } :: dag := by
  unfold add at added
  split at added
  · cases added
  next conditions =>
    obtain ⟨data, computed, rfl⟩ := Option.map_eq_some_iff.mp added
    exact ⟨by tauto, by tauto, by simpa using fun any => conditions (.inr (.inr any)),
      data, computed, rfl⟩

inductive Built (k : Nat) (Meets : BlockDag → List Uint256 → Prop) : BlockDag → Prop where
  | empty : Built k Meets []
  | add {dag dag' : BlockDag} (hash : Uint256) (parents : List Uint256) (work : UInt64)
      (built : Built k Meets dag) (meets : Meets dag parents)
      (added : dag.add k hash parents work = some dag') : Built k Meets dag'

/-! ## The blocks of a built DAG -/

@[simp] theorem find_cons_self (block : DagBlock) (dag : BlockDag) :
    find (block :: dag) block.hash = some block := by
  simp [find]

variable {block : DagBlock}

theorem find_cons_of_ne {dag : BlockDag} (ne : block.hash ≠ hash) :
    find (block :: dag) hash = dag.find hash := by
  simp [find, ne]

theorem parentsOf_cons_self (block : DagBlock) (dag : BlockDag) :
    parentsOf (block :: dag) block.hash = block.parents := by
  simp [parentsOf]

theorem parentsOf_cons_of_ne {dag : BlockDag} (ne : block.hash ≠ hash) :
    parentsOf (block :: dag) hash = dag.parentsOf hash := by
  rw [parentsOf, parentsOf, find_cons_of_ne ne]

theorem pastOf_cons_self (block : DagBlock) (dag : BlockDag) :
    pastOf (block :: dag) block.hash
      = block.parents.toFinset.biUnion fun parent => insert parent (dag.pastOf parent) := by
  rw [pastOf, if_pos rfl]

theorem pastOf_cons_of_ne {dag : BlockDag} (ne : block.hash ≠ hash) :
    pastOf (block :: dag) hash = dag.pastOf hash := by
  rw [pastOf, if_neg ne]

theorem parentsOf_of_notMem {dag : BlockDag} (unknown : hash ∉ dag.hashes) :
    dag.parentsOf hash = [] := by
  have missing : dag.find hash = none := by
    rw [find, List.find?_eq_none]
    intro block mem same
    exact unknown (List.mem_map.mpr ⟨block, mem, by simpa using same⟩)
  rw [parentsOf, missing]

theorem pastOf_of_notMem {dag : BlockDag} (unknown : hash ∉ dag.hashes) : dag.pastOf hash = ∅ := by
  induction dag with
  | nil => rfl
  | cons block rest ih => grind [hashes, List.map_cons, List.mem_cons, pastOf_cons_of_ne]

section Built

variable {k : Nat} {Meets : BlockDag → List Uint256 → Prop} {dag : BlockDag}

variable {hash : Uint256}

theorem Built.ne_zero (built : Built k Meets dag) (mem : hash ∈ dag.hashes) : hash ≠ 0 := by
  induction built with
  | empty => cases mem
  | add _ _ _ _ _ added ih =>
    obtain ⟨nonzero, _, _, _, _, rfl⟩ := add_cases added
    rcases List.mem_cons.mp mem with rfl | old
    · exact nonzero
    · exact ih old

theorem parentsOf_cons_of_mem {block : DagBlock} (isNew : block.hash ∉ dag.hashes)
    (mem : hash ∈ dag.hashes) : parentsOf (block :: dag) hash = dag.parentsOf hash :=
  parentsOf_cons_of_ne fun same => isNew (same ▸ mem)

theorem pastOf_cons_of_mem {block : DagBlock} (isNew : block.hash ∉ dag.hashes)
    (mem : hash ∈ dag.hashes) : pastOf (block :: dag) hash = dag.pastOf hash :=
  pastOf_cons_of_ne fun same => isNew (same ▸ mem)

theorem Built.topological (built : Built k Meets dag) :
    Topological dag.parentsOf dag.hashes := by
  induction built with
  | empty => exact .nil
  | add _ _ _ _ _ added ih =>
    obtain ⟨_, isNew, known, _, _, rfl⟩ := add_cases added
    refine .cons ?_ (ih.congr fun hash mem => parentsOf_cons_of_mem isNew mem)
    rwa [parentsOf_cons_self]

theorem Built.mem_pastOf_iff (built : Built k Meets dag) {other : Uint256} (mem : hash ∈ dag.hashes)
    :
    other ∈ dag.pastOf hash ↔ other ∈ Past dag.parentsOf hash := by
  induction built generalizing hash with
  | empty => cases mem
  | @add dag _ newHash parents work built _ added ih =>
    obtain ⟨_, isNew, known, data, _, rfl⟩ := add_cases added
    have agree : ∀ hash ∈ dag.hashes,
        parentsOf (⟨newHash, parents, work, data⟩ :: dag) hash = dag.parentsOf hash :=
      fun hash mem => parentsOf_cons_of_mem isNew mem
    have closed := built.topological.closed
    rcases List.mem_cons.mp mem with rfl | old
    · rw [pastOf_cons_self, mem_past_iff, parentsOf_cons_self, Finset.mem_biUnion]
      simp only [List.mem_toFinset, Finset.mem_insert]
      grind [past_congr]
    · rw [pastOf_cons_of_mem isNew old, ih old, past_congr closed agree old]

end Built

end BlockDag

end QuantBTC.Dag
