/-
# Node.ArrivalOrder -- does a score depend on the order of arrival?

`AcceptBlock` asks the provider for the data of every parent, and the provider has data for
every entry: an entry known by its header alone answers with the default data.  A body that
overtakes the body of a parent is scored against it, and is not scored again.
-/
import QuantBTC.Node.ParentsFirst

namespace QuantBTC.Node

set_option autoImplicit false

open Primitives Dag

theorem unscored_run {env : ChainEnv} (off : env.dagMode = false) (arrivals : List Arrival) :
    ∀ hash entry, (runArrivals env arrivals).blockIndex.nodeDag.view hash = some entry →
      entry.dagData = {} := by
  have unscored := run_rule (fun node => (node.view env.hashGenesisBlock).isSome ∧
    ∀ hash entry, node.view hash = some entry → entry.dagData = {}) ?_ ?_ ?_ ?_
    (bodiesMeet_true env (ChainstateManager.loadGenesisBlock env) arrivals)
  · exact unscored.2
  · exact fun node inv => inv.1
  · rintro arrival - node later ⟨known, unscored⟩ step
    obtain ⟨genesis, isGenesis⟩ := Option.isSome_iff_exists.mp known
    refine ⟨by rw [step.view_eq isGenesis]; rfl, fun hash entry isEntry => ?_⟩
    cases step with
    | skip => exact unscored hash entry isEntry
    | add prev unknown found =>
      by_cases same : hash = env.hashOf arrival.carried
      · subst same
        cases NodeDag.view_set_self.symm.trans isEntry
        rfl
      · exact unscored hash entry ((NodeDag.view_set_of_ne same).symm.trans isEntry)
  · rintro arrival - before node later - - - inv step
    cases step with
    | skip => exact inv
    | resolve _ _ on => rw [off] at on; cases on
    | score _ _ on => rw [off] at on; cases on
    | plain => exact inv
  · rw [loadGenesisBlock_nodeDag]
    refine ⟨by rw [NodeDag.store, NodeDag.view_set_self]; rfl, fun hash entry isEntry => ?_⟩
    rw [(genesisNode_view isEntry).2]
    rfl

theorem storedData_eq_some {chainman : ChainstateManager} {hash : Uint256} {data : GhostdagData}
    (isStored : chainman.storedData hash = some data) :
    chainman.blockIndex.nodeDag.stored hash = true ∧
      ∃ entry, chainman.blockIndex.nodeDag.view hash = some entry ∧ entry.dagData = data := by
  obtain ⟨pindex, found, rfl⟩ := Option.map_eq_some_iff.mp isStored
  obtain ⟨found, haveData⟩ := Option.filter_eq_some_iff.mp found
  exact ⟨(BlockMap.stored_of_lookup found).trans haveData, pindex.dagEntry,
    BlockMap.view_of_lookup found, rfl⟩

/-- **Scores do not depend on the order of arrival** when no body arrives before the body of
one of its parents and all copies that arrive under one hash carry the same header. -/
theorem scores_independent_of_order (env : ChainEnv) (arrivals arrivals' : List Arrival)
    (names : HashNames env {header | header ∈ (arrivals ++ arrivals').map Arrival.carried})
    (parentsFirst : BodiesMeet env (ParentsStored env) (.loadGenesisBlock env) arrivals)
    (parentsFirst' : BodiesMeet env (ParentsStored env) (.loadGenesisBlock env) arrivals')
    (hash : Uint256) (data data' : GhostdagData)
    (isStored : (runArrivals env arrivals).storedData hash = some data)
    (isStored' : (runArrivals env arrivals').storedData hash = some data') : data' = data := by
  obtain ⟨stored, entry, isEntry, rfl⟩ := storedData_eq_some isStored
  obtain ⟨stored', entry', isEntry', rfl⟩ := storedData_eq_some isStored'
  by_cases dagMode : env.dagMode = true
  · have isLocal : Local fun _ _ => True := fun _ _ _ _ _ _ _ => trivial
    obtain ⟨order, ordered⟩ := ordered_run names isLocal dagMode arrivals
      (fun arrival mem => List.mem_map_of_mem (List.mem_append_left _ mem))
      (parentsFirst.mono fun _ _ ready => ⟨ready, .inr trivial⟩)
    obtain ⟨order', ordered'⟩ := ordered_run names isLocal dagMode arrivals'
      (fun arrival mem => List.mem_map_of_mem (List.mem_append_right _ mem))
      (parentsFirst'.mono fun _ _ ready => ⟨ready, .inr trivial⟩)
    have same := ordered.view_eq names ordered' ((ordered.mem_iff hash).mpr stored)
      ((ordered'.mem_iff hash).mpr stored')
    rw [isEntry, isEntry'] at same
    rw [Option.some.inj same]
  · grind [unscored_run]

def bodiesOnly : List Arrival :=
  [requestedBody (nonceBlock 1 1 []), requestedBody (nonceBlock 2 1 []),
    requestedBody (nonceBlock 3 2 [3])]

def headersBefore : List Arrival :=
  [announcedHeader (nonceBlock 1 1 []), announcedHeader (nonceBlock 3 2 [3]),
    requestedBody (nonceBlock 2 1 []), requestedBody (nonceBlock 1 1 []),
    requestedBody (nonceBlock 3 2 [3])]

theorem parentsFirst_bodiesOnly :
    BodiesMeet nonceChain (ParentsStored nonceChain) (.loadGenesisBlock nonceChain) bodiesOnly := by
  refine And.intro (.inr ⟨by decide +kernel, nofun⟩) (And.intro (.inr ⟨by decide +kernel, nofun⟩)
    (And.intro (.inr ⟨by decide +kernel, ?_⟩) trivial))
  exact List.forall_mem_singleton.mpr (by decide +kernel)

theorem parentsFirst_headersBefore :
    BodiesMeet nonceChain (ParentsStored nonceChain) (.loadGenesisBlock nonceChain)
      headersBefore := by
  refine And.intro (.inr ⟨by decide +kernel, nofun⟩) (And.intro (.inr ⟨by decide +kernel, nofun⟩)
    (And.intro (.inr ⟨by decide +kernel, ?_⟩) trivial))
  exact List.forall_mem_singleton.mpr (by decide +kernel)

/-- Both nodes give `4` the same data. -/
theorem scores_independent_siblings :
    ∃ data, (runArrivals nonceChain bodiesOnly).storedData 4 = some data ∧
      (runArrivals nonceChain headersBefore).storedData 4 = some data := by
  have names : HashNames nonceChain
      {header | header ∈ (bodiesOnly ++ headersBefore).map Arrival.carried} := by decide +kernel
  have first : ((runArrivals nonceChain bodiesOnly).storedData 4).isSome := by decide +kernel
  have second : ((runArrivals nonceChain headersBefore).storedData 4).isSome := by decide +kernel
  obtain ⟨data, isStored⟩ := Option.isSome_iff_exists.mp first
  obtain ⟨data', isStored'⟩ := Option.isSome_iff_exists.mp second
  have same := scores_independent_of_order nonceChain bodiesOnly headersBefore names
    parentsFirst_bodiesOnly parentsFirst_headersBefore 4 data data' isStored isStored'
  exact ⟨data, isStored, same ▸ isStored'⟩

def childLast : List Arrival :=
  [requestedBody (nonceBlock 1 1 []), requestedBody (nonceBlock 2 2 [])]

def childFirst : List Arrival :=
  [announcedHeader (nonceBlock 1 1 []), requestedBody (nonceBlock 2 2 []),
    requestedBody (nonceBlock 1 1 [])]

/-- Both nodes end up with both bodies, and the one that received the child first has it with
blue score 1 instead of 2. -/
theorem score_of_overtaking_body :
    HashNames nonceChain {header | header ∈ (childLast ++ childFirst).map Arrival.carried} ∧
      (runArrivals nonceChain childLast).storedData 2 = some ⟨1, 1, [], [], 0⟩ ∧
      (runArrivals nonceChain childFirst).storedData 2 = some ⟨1, 1, [], [], 0⟩ ∧
      (runArrivals nonceChain childLast).storedData 3 = some ⟨2, 2, [], [], 0⟩ ∧
      (runArrivals nonceChain childFirst).storedData 3 = some ⟨1, 2, [], [], 0⟩ := by
  decide +kernel

end QuantBTC.Node
