/-
# Node.AncestorQuery -- is the ancestor query exact?

`IsAncestorOf` leaves out what is not above the height of the ancestor.  A height counts the
blocks along `pprev` only, and an extra parent may be as high as its child or higher, so a path
to an ancestor can lead through blocks that the search does not expand.
-/
import QuantBTC.Dag.AncestorQuery
import QuantBTC.Node.NodeDag
import QuantBTC.Node.Persistence
import QuantBTC.Theory.Runs

namespace QuantBTC.Node

set_option autoImplicit false

open Primitives Dag Theory.ParentGraph Theory.Runs

structure Announcement where
  now : Int
  minPowChecked : Bool
  header : CBlockHeader

def announce (env : ChainEnv) (chainman : ChainstateManager) (announced : Announcement) :
    ChainstateManager :=
  (chainman.acceptBlockHeader env announced.now announced.minPowChecked announced.header).1

def HidesNothing (env : ChainEnv) (chainman : ChainstateManager) (announced : Announcement) : Prop :=
  let node := chainman.blockIndex.nodeDag
  let header := announced.header
  node.view (env.hashOf header) = none →
    ((announce env chainman announced).blockIndex.nodeDag.view (env.hashOf header)).isSome →
      node.view.ShowsPast (header.hashPrevBlock :: node.knownParents env header)
        (node.view.heightOf header.hashPrevBlock + 1)

section Step

variable {env : ChainEnv} {header : CBlockHeader} {node later : NodeDag}

theorem adds_set (closed : Closed node.view.getParents {hash | (node.view hash).isSome})
    {hash : Uint256} {entry : DagEntry} (unknown : node.view hash = none)
    (known : ∀ parent ∈ entry.parents, parent = hash ∨ (node.view parent).isSome) :
    DagView.Adds node.view (node.set hash entry).view hash entry :=
  ⟨closed, unknown, known, NodeDag.view_set_self, fun _ other => NodeDag.view_set_of_ne other⟩

theorem visiblePast_headerStep_iff
    (closed : Closed node.view.getParents {hash | (node.view hash).isSome})
    (visible : node.view.VisiblePast) (step : NodeDag.HeaderStep env header node later) :
    later.view.VisiblePast ↔
      (node.view (env.hashOf header) = none → (later.view (env.hashOf header)).isSome →
        node.view.ShowsPast (header.hashPrevBlock :: node.knownParents env header)
          (node.view.heightOf header.hashPrevBlock + 1)) := by
  cases step with
  | skip =>
    refine iff_of_true visible fun unknown known => ?_
    simp [unknown] at known
  | add prev unknown found =>
    have height : node.view.heightOf header.hashPrevBlock = prev.nHeight := by
      rw [DagView.heightOf, found]
    rw [height]
    refine ((adds_set closed unknown ?_).visiblePast_iff visible).trans ?_
    · intro parent mem
      rcases List.mem_cons.mp mem with rfl | extra
      · refine .inr ?_
        rw [found]
        rfl
      · simpa using (List.mem_filter.mp extra).2
    · constructor
      · exact fun shows _ _ => shows
      · intro shows
        refine shows unknown ?_
        rw [NodeDag.view_set_self]
        rfl

end Step

/-! ## Runs of headers -/

theorem Consistent.closed {env : ChainEnv} {index : BlockMap} (consistent : Consistent env index.find) :
    Closed index.nodeDag.view.getParents {hash | (index.nodeDag.view hash).isSome} := by
  have isSome_iff : ∀ hash, (index.nodeDag.view hash).isSome ↔ (index.find hash).isSome := by
    intro hash
    simp [BlockMap.nodeDag, BlockMap.dagView]
  intro hash _ parent mem
  unfold DagView.getParents at mem
  split at mem
  · cases mem
  next entry isEntry =>
    obtain ⟨pindex, found, rfl⟩ := Option.map_eq_some_iff.mp isEntry
    have ok := consistent hash pindex found
    refine (isSome_iff parent).mpr ?_
    rcases List.mem_append.mp mem with isPrev | extra
    · rcases ok.prev with ⟨noPrev, _⟩ | ⟨hashPrev, prev, prevEq, prevFound, _⟩
      · simp [show pindex.dagEntry.pprev = none from noPrev] at isPrev
      · rw [show pindex.dagEntry.pprev = some hashPrev from prevEq] at isPrev
        obtain rfl := List.mem_singleton.mp isPrev
        rw [prevFound]
        rfl
    · exact ok.parents parent extra

structure Grown (env : ChainEnv) (chainman later : ChainstateManager) : Prop where
  genesis : (later.blockIndex.find env.hashGenesisBlock).isSome
  consistent : Consistent env later.blockIndex.find
  grows : Grows chainman.blockIndex.find later.blockIndex.find

theorem Grown.announce {env : ChainEnv} {chainman later : ChainstateManager}
    (grown : Grown env chainman later) (announced : Announcement) :
    Grown env chainman (announce env later announced) := by
  have keeps := arrive_keeps grown.genesis
    (.header announced.now announced.minPowChecked announced.header)
  exact ⟨keeps.grows.isSome grown.genesis, keeps.consistent grown.consistent,
    grown.grows.trans keeps.grows⟩

theorem grown_announcements {env : ChainEnv} {chainman : ChainstateManager}
    (genesis : (chainman.blockIndex.find env.hashGenesisBlock).isSome)
    (consistent : Consistent env chainman.blockIndex.find) (announcements : List Announcement) :
    Grown env chainman (announcements.foldl (announce env) chainman) :=
  invariant (Grown env chainman) (fun _ announced grown => grown.announce announced)
    ⟨genesis, consistent, fun _ pindex found => ⟨pindex, found, rfl⟩⟩

theorem Grows.length_le {index later : BlockMap} (grows : Grows index.find later.find) :
    index.keys.length ≤ later.keys.length := by
  refine (List.subperm_of_subset index.nodupKeys fun hash mem => ?_).length_le
  exact AList.lookup_isSome.mp (grows.isSome (AList.lookup_isSome.mpr mem))

theorem visiblePast_start (env : ChainEnv) :
    (ChainstateManager.loadGenesisBlock env).blockIndex.dagView.VisiblePast := by
  intro block ancestor below
  obtain ⟨parent, mem, _⟩ := mem_past_iff.mp below
  change parent ∈ (ChainstateManager.loadGenesisBlock env).blockIndex.nodeDag.view.getParents block
    at mem
  rw [loadGenesisBlock_nodeDag, DagView.getParents] at mem
  split at mem
  · cases mem
  next entry isEntry =>
    rw [(genesisNode_view isEntry).2] at mem
    cases mem

/-- **The ancestor query is exact throughout a run of headers exactly when** no header that is
added hides a block of its past. -/
theorem exactQuery_throughout_iff (env : ChainEnv) (announcements : List Announcement)
    (few : (announcements.foldl (announce env) (.loadGenesisBlock env)).blockIndex.keys.length
      ≤ DagView.maxAncestorBfsNodes) :
    (∀ done, done <+: announcements →
        (done.foldl (announce env) (.loadGenesisBlock env)).blockIndex.dagView.ExactQuery) ↔
      StepsMeet (announce env) (HidesNothing env) (.loadGenesisBlock env) announcements := by
  have genesis := (sound_arrivals env []).known
  have consistent := (sound_arrivals env []).consistent
  have query : ∀ done, done <+: announcements →
      ((done.foldl (announce env) (.loadGenesisBlock env)).blockIndex.dagView.ExactQuery ↔
        (done.foldl (announce env) (.loadGenesisBlock env)).blockIndex.dagView.VisiblePast) := by
    rintro done ⟨rest, rfl⟩
    rw [List.foldl_append] at few
    have grown := grown_announcements genesis consistent done
    have further := grown_announcements grown.genesis grown.consistent rest
    refine DagView.exactQuery_iff _ (fun hash => ?_) grown.consistent.closed
      (further.grows.length_le.trans few)
    rw [BlockMap.dagView, Option.isSome_map, AList.lookup_isSome]
    rfl
  have start : Grown env (.loadGenesisBlock env) (.loadGenesisBlock env) :=
    grown_announcements genesis consistent []
  have step : ∀ chainman announced, Grown env (.loadGenesisBlock env) chainman →
      chainman.blockIndex.dagView.VisiblePast →
      ((announce env chainman announced).blockIndex.dagView.VisiblePast ↔
        HidesNothing env chainman announced) := by
    intro chainman announced grown visible
    exact visiblePast_headerStep_iff grown.consistent.closed visible
      (ChainstateManager.acceptBlockHeader_step announced.now announced.minPowChecked
        announced.header grown.genesis)
  rw [forall₂_congr query]
  exact holds_throughout_iff _ (fun _ announced grown => grown.announce announced) step start
    (visiblePast_start env)

/-! ## Examples -/

theorem showsPast_of_flat {view : DagView} {parents : List Uint256} {height : Nat} (root : Uint256)
    (noParents : view.getParents root = [])
    (flat : parents.all (fun parent => view.heightOf parent ≤ height ∧
      (view.getParents parent = [] ∨
        view.getParents parent = [root] ∧ view.heightOf root < view.heightOf parent)) = true) :
    view.ShowsPast parents height := by
  simp only [List.all_eq_true, decide_eq_true_eq] at flat
  refine ⟨fun parent mem _ => (flat parent mem).1, ?_⟩
  grind [past_of_no_parents, past_of_single_parent]

def announcedBlock (block : CBlock) : Announcement :=
  { now := 1743379300, minPowChecked := true, header := block.toCBlockHeader }

/-- Two blocks on genesis and their merge: every pair of blocks is answered correctly. -/
theorem exactQuery_siblings :
    let announcements := [nonceBlock 1 1 [], nonceBlock 2 1 [], nonceBlock 3 2 [3]].map announcedBlock
    (announcements.foldl (announce nonceChain)
      (.loadGenesisBlock nonceChain)).blockIndex.dagView.ExactQuery := by
  intro announcements
  refine (exactQuery_throughout_iff nonceChain announcements (by decide +kernel)).mpr ?_
    announcements List.prefix_rfl
  refine And.intro (fun _ _ => ?_) (And.intro (fun _ _ => ?_) (And.intro (fun _ _ => ?_) trivial))
  · exact showsPast_of_flat 1 (by decide +kernel) (by decide +kernel)
  · exact showsPast_of_flat 1 (by decide +kernel) (by decide +kernel)
  · exact showsPast_of_flat 1 (by decide +kernel) (by decide +kernel)

/-- Block `6` extends `2` and has the extra parent `5`, which is higher than `6`: it is a parent
that the query does not find. -/
theorem higher_parent_is_no_ancestor :
    let announcements := [nonceBlock 1 1 [], nonceBlock 2 1 [], nonceBlock 3 3 [], nonceBlock 4 4 [],
      nonceBlock 5 2 [5]].map announcedBlock
    let view := (announcements.foldl (announce nonceChain)
      (.loadGenesisBlock nonceChain)).blockIndex.dagView
    (view 5).isSome ∧ (view 6).isSome ∧ 5 ∈ Past view.getParents 6 ∧
      view.provider.isAncestorOf 5 6 = false := by
  intro announcements view
  have parent : 5 ∈ view.getParents 6 := by decide +kernel
  exact ⟨by decide +kernel, by decide +kernel, parent_mem_past parent, by decide +kernel⟩

end QuantBTC.Node
