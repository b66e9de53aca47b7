/-
# Node.Verdict -- what the checks of a block read

The entry that a header and its body leave behind, as functions of the index they meet:
`headerVerdict` and `bodyVerdict`.  Both read the entries of the block's past only, and of
those nothing that the connection of a block changes: the verification level, the sequence
number and the mergesets.  `AgreeOn` says that two indexes hold the same lasting entries on a
set of blocks that no entry leads out of.
-/
import QuantBTC.Node.NodeDag

namespace QuantBTC.Node

set_option autoImplicit false

open Primitives Dag Theory.ParentGraph

/-! ## Lasting entries -/

namespace CBlockIndex

def lasting (pindex : CBlockIndex) : CBlockIndex :=
  { pindex with
    nStatus := { pindex.nStatus with validity := .unknown }
    dagData := pindex.dagData.bare
    nSequenceId := 0 }

def setCount (mChainTxCount : UInt64) (pindex : CBlockIndex) : CBlockIndex :=
  { pindex with mChainTxCount }

theorem lasting_congr {β : Type} {p q : CBlockIndex} (same : p.lasting = q.lasting)
    (read : CBlockIndex → β) (reads : ∀ pindex, read pindex.lasting = read pindex) :
    read p = read q := by
  rw [← reads p, same, reads q]

theorem map_lasting_congr {β : Type} {entry other : Option CBlockIndex}
    (same : entry.map lasting = other.map lasting)
    (read : CBlockIndex → β) (reads : ∀ pindex, read pindex.lasting = read pindex) :
    entry.map read = other.map read := by
  have through : read = read ∘ lasting := funext fun pindex => (reads pindex).symm
  rw [through, ← Option.map_map, same, Option.map_map]

@[simp] theorem lasting_raiseValidity (pindex : CBlockIndex) (upTo : BlockValidity) :
    (pindex.raiseValidity upTo).lasting = pindex.lasting :=
  raiseValidity_congr lasting (fun _ _ => rfl) pindex upTo

theorem lasting_setScore (pindex : CBlockIndex) (dagData : GhostdagData) :
    (pindex.setScore dagData).lasting = pindex.lasting.setScore dagData.bare :=
  rfl

structure Within (blocks : Set Uint256) (pindex : CBlockIndex) : Prop where
  parents : ∀ parent ∈ pindex.allParents, parent ∈ blocks
  selected : pindex.dagData.selectedParent = 0 ∨ pindex.dagData.selectedParent ∈ blocks

variable {blocks : Set Uint256}

theorem Within.mono {larger : Set Uint256} {pindex : CBlockIndex} (subset : blocks ⊆ larger)
    (within : pindex.Within blocks) : pindex.Within larger :=
  ⟨fun parent mem => subset (within.parents parent mem), within.selected.imp_right (subset ·)⟩

theorem Within.of_lasting {p q : CBlockIndex} (same : p.lasting = q.lasting)
    (within : q.Within blocks) : p.Within blocks  where
  parents := by
    rw [lasting_congr same allParents fun _ => rfl]
    exact within.parents
  selected := by
    rw [lasting_congr same (·.dagData.selectedParent) fun _ => rfl]
    exact within.selected

theorem Within.prev_mem {pindex : CBlockIndex} (within : pindex.Within blocks) (prev : Uint256)
    (isPrev : pindex.pprev = some prev) : prev ∈ blocks := by
  refine within.parents prev ?_
  simp [allParents, isPrev]

end CBlockIndex

def listedParents (header : CBlockHeader) : List Uint256 :=
  header.hashPrevBlock :: dagParents header

namespace ChainstateManager

variable (env : ChainEnv)

/-! ## Verdicts -/

def headerVerdict (index : BlockMap) (block : CBlockHeader) : Option CBlockIndex :=
  if checkNewHeader env index block.nTime.toNat block = none then
    some (newEntry (index.insert (env.hashOf block) (.ofHeader block)) block)
  else none

def scoreVerdict (index : BlockMap) (block : CBlock) (pindex : CBlockIndex) :
    Except CBlockIndex CBlockIndex :=
  if env.dagMode then
    match resolvedParents index block pindex with
    | (vDagParents, some _) => .error (pindex.setParents vDagParents)
    | (vDagParents, none) =>
      match scoreParents env index.provider (pindex.pprev.toList ++ vDagParents)
          pindex.dagData with
      | .error _ => .error (pindex.setParents vDagParents)
      | .ok dagData => .ok ((pindex.setParents vDagParents).setScore dagData)
  else .ok pindex

def linkedCount (index : BlockMap) (pindex : CBlockIndex) : UInt64 :=
  if (pindex.pprev.bind fun prev => index.lookup prev).all (·.haveNumChainTxs) then
    prevTxSum index pindex
  else 0

def storedEntry (index : BlockMap) (block : CBlock) (pindex : CBlockIndex) : CBlockIndex :=
  let received := pindex.setData block.vtx
  received.setCount (linkedCount index received)

def bodyVerdict (index : BlockMap) (block : CBlock) (pindex : CBlockIndex) : CBlockIndex :=
  match checkBody env index block pindex with
  | some invalid => if invalid.result = .mutated then pindex else pindex.setFailedValid
  | none =>
    match scoreVerdict env index block pindex with
    | .error refused => refused
    | .ok scored => storedEntry index block scored

variable {env} {index : BlockMap} {block : CBlock} {pindex : CBlockIndex}

theorem scoreVerdict_cases (env : ChainEnv) (index : BlockMap) (block : CBlock)
    (pindex : CBlockIndex) :
    scoreVerdict env index block pindex = .ok pindex ∨
    scoreVerdict env index block pindex
      = .error (pindex.setParents (resolvedParents index block pindex).1) ∨
    ∃ dagData, scoreParents env index.provider
        (pindex.pprev.toList ++ (resolvedParents index block pindex).1) pindex.dagData = .ok dagData ∧
      scoreVerdict env index block pindex
        = .ok ((pindex.setParents (resolvedParents index block pindex).1).setScore dagData) := by
  grind [scoreVerdict]

theorem scoreVerdict_ok {scored : CBlockIndex}
    (ok : scoreVerdict env index block pindex = .ok scored) :
    scored.pprev = pindex.pprev ∧ scored.mChainTxCount = pindex.mChainTxCount := by
  rcases scoreVerdict_cases env index block pindex with same | refused | ⟨dagData, _, isScored⟩
  · rw [same] at ok
    rw [← Except.ok.inj ok]
    exact ⟨rfl, rfl⟩
  · simp [refused] at ok
  · rw [isScored] at ok
    rw [← Except.ok.inj ok]
    exact ⟨rfl, rfl⟩

/-! ## Where verdicts lead -/

variable {blocks : Set Uint256}

theorem newEntry_within {header : CBlockHeader}
    (listed : ∀ parent ∈ listedParents header, parent ∈ blocks) (index : BlockMap) :
    (newEntry index header).Within blocks := by
  rw [newEntry]
  refine CBlockIndex.Within.of_lasting (CBlockIndex.lasting_raiseValidity _ _) ⟨?_, .inl rfl⟩
  intro parent mem
  rcases List.mem_append.mp mem with isPrev | extra
  · obtain ⟨_, _, rfl⟩ := Option.map_eq_some_iff.mp (Option.mem_toList.mp isPrev)
    exact listed _ List.mem_cons_self
  · refine listed parent (List.mem_cons_of_mem _ ?_)
    grind [dagParents, List.mem_of_mem_filter]

theorem newEntry_fresh (index : BlockMap) (header : CBlockHeader) :
    (newEntry index header).nStatus.failed = false ∧
      (newEntry index header).nStatus.haveData = false ∧
      (newEntry index header).mChainTxCount = 0 := by
  have same := CBlockIndex.lasting_raiseValidity
  rw [newEntry]
  exact ⟨CBlockIndex.lasting_congr (same _ _) (·.nStatus.failed) fun _ => rfl,
    CBlockIndex.lasting_congr (same _ _) (·.nStatus.haveData) fun _ => rfl,
    CBlockIndex.lasting_congr (same _ _) (·.mChainTxCount) fun _ => rfl⟩

theorem scoreParents_selected {provider : IGhostdagBlockProvider} {parents : List Uint256}
    {dagData scored : GhostdagData} (inside : ∀ parent ∈ parents, parent ∈ blocks)
    (selected : dagData.selectedParent = 0 ∨ dagData.selectedParent ∈ blocks)
    (ok : scoreParents env provider parents dagData = .ok scored) :
    scored.selectedParent = 0 ∨ scored.selectedParent ∈ blocks := by
  by_cases empty : parents = []
  · rw [scoreParents, if_pos empty] at ok
    rwa [← Except.ok.inj ok]
  · rcases computeGhostdag_cases _ (scoreParents_some empty ok) with
      ⟨isEmpty, _⟩ | ⟨nonempty, spData, inherited, mergeset, isScored⟩
    · exact absurd isEmpty empty
    · exact .inr (inside _ (isScored.selected ▸ selectBestParent_mem _ nonempty))

theorem resolvedParents_mem (index : BlockMap)
    (listed : ∀ parent ∈ dagParents block.toCBlockHeader, parent ∈ blocks)
    (within : pindex.Within blocks) :
    ∀ parent ∈ pindex.pprev.toList ++ (resolvedParents index block pindex).1, parent ∈ blocks := by
  intro parent mem
  rcases List.mem_append.mp mem with isPrev | extra
  · exact within.parents parent (List.mem_append_left _ isPrev)
  · rcases resolvedParents_partly index block pindex with sublist | kept
    · exact listed parent (sublist.subset extra)
    · exact within.parents parent (List.mem_append_right _ (kept ▸ extra))

theorem setParents_within (listed : ∀ parent ∈ dagParents block.toCBlockHeader, parent ∈ blocks)
    (within : pindex.Within blocks) :
    (pindex.setParents (resolvedParents index block pindex).1).Within blocks :=
  ⟨resolvedParents_mem _ listed within, within.selected⟩

theorem scoreVerdict_within (listed : ∀ parent ∈ dagParents block.toCBlockHeader, parent ∈ blocks)
    (within : pindex.Within blocks) {scored : CBlockIndex}
    (ok : scoreVerdict env index block pindex = .ok scored) : scored.Within blocks := by
  rcases scoreVerdict_cases env index block pindex with same | refused | ⟨dagData, isScore, isScored⟩
  · rw [same] at ok
    rwa [← Except.ok.inj ok]
  · simp [refused] at ok
  · rw [isScored] at ok
    rw [← Except.ok.inj ok]
    exact ⟨(setParents_within listed within).parents,
      scoreParents_selected (resolvedParents_mem _ listed within) within.selected isScore⟩

theorem bodyVerdict_within (listed : ∀ parent ∈ dagParents block.toCBlockHeader, parent ∈ blocks)
    (within : pindex.Within blocks) : (bodyVerdict env index block pindex).Within blocks := by
  rw [bodyVerdict]
  split
  · split
    · exact within
    · exact ⟨within.parents, within.selected⟩
  · split
    · grind [scoreVerdict_cases, Except.error.inj, setParents_within]
    next scored isScored =>
      have kept := scoreVerdict_within listed within isScored
      exact ⟨kept.parents, kept.selected⟩

theorem bodyVerdict_count (pending : (bodyVerdict env index block pindex).nStatus.haveData = false) :
    (bodyVerdict env index block pindex).mChainTxCount = pindex.mChainTxCount := by
  revert pending
  rw [bodyVerdict]
  split
  · split
    · exact fun _ => rfl
    · exact fun _ => rfl
  · rcases scoreVerdict_cases env index block pindex with same | refused | ⟨dagData, _, scored⟩
    · rw [same]
      exact fun pending => nomatch pending
    · rw [refused]
      exact fun _ => rfl
    · rw [scored]
      exact fun pending => nomatch pending

/-! ## Refused bodies -/

theorem resolveDagParents_length {parents resolved : List Uint256} {invalid : Invalid}
    (unresolved : resolveDagParents index parents = (resolved, some invalid)) :
    resolved.length < parents.length := by
  induction parents generalizing resolved with
  | nil => cases unresolved
  | cons parent rest ih =>
    rw [resolveDagParents] at unresolved
    grind

theorem resolvedParents_again :
    resolvedParents index block (pindex.setParents (resolvedParents index block pindex).1)
      = resolvedParents index block pindex := by
  by_cases again : block.isDagBlock = true ∧ pindex.vDagParents.length < block.hashParents.length
  · obtain ⟨isDag, fewer⟩ := again
    rcases resolved : resolveDagParents index block.hashParents with ⟨vDagParents, _ | invalid⟩
    · have complete := resolveDagParents_complete resolved
      simp [resolvedParents, isDag, fewer, resolved, CBlockIndex.setParents, complete]
    · have shorter := resolveDagParents_length resolved
      simp [resolvedParents, isDag, fewer, resolved, CBlockIndex.setParents, shorter]
  · simp [resolvedParents, again, CBlockIndex.setParents]

theorem bodyVerdict_again (pending : (bodyVerdict env index block pindex).nStatus.haveData = false)
    (unmarked : (bodyVerdict env index block pindex).nStatus.failed = false) :
    bodyVerdict env index block (bodyVerdict env index block pindex)
      = bodyVerdict env index block pindex := by
  cases checked : checkBody env index block pindex with
  | some invalid =>
    by_cases mutated : invalid.result = .mutated
    · have kept : bodyVerdict env index block pindex = pindex := by
        simp [bodyVerdict, checked, mutated]
      rw [kept, kept]
    · have marked : bodyVerdict env index block pindex = pindex.setFailedValid := by
        simp [bodyVerdict, checked, mutated]
      rw [marked] at unmarked
      cases unmarked
  | none =>
    have verdict : bodyVerdict env index block pindex
        = match scoreVerdict env index block pindex with
          | .error refused => refused
          | .ok scored => storedEntry index block scored := by
      simp only [bodyVerdict, checked]
    rcases scoreVerdict_cases env index block pindex with same | refused | ⟨dagData, _, scored⟩
    · rw [verdict, same] at pending
      cases pending
    · -- the parents are resolved as before, so scoring fails as before
      have checkedAgain : checkBody env index block
          (pindex.setParents (resolvedParents index block pindex).1) = none := checked
      have refusedAgain : scoreVerdict env index block
          (pindex.setParents (resolvedParents index block pindex).1)
            = .error (pindex.setParents (resolvedParents index block pindex).1) := by
        rw [scoreVerdict] at refused ⊢
        rw [resolvedParents_again]
        split at refused
        next dag =>
          rwa [if_pos dag]
        · cases refused
      rw [verdict, refused]
      simp only [bodyVerdict, checkedAgain, refusedAgain]
    · rw [verdict, scored] at pending
      cases pending

end ChainstateManager

/-! ## Agreement -/

open ChainstateManager

structure AgreeOn (blocks : Set Uint256) (index other : BlockMap) : Prop where
  same : ∀ hash ∈ blocks,
    (other.lookup hash).map CBlockIndex.lasting = (index.lookup hash).map CBlockIndex.lasting
  within : ∀ hash ∈ blocks, ∀ pindex, index.lookup hash = some pindex → pindex.Within blocks

namespace AgreeOn

variable {blocks : Set Uint256} {index other : BlockMap} {hash : Uint256}

theorem lookup (agree : AgreeOn blocks index other) (mem : hash ∈ blocks) :
    (index.lookup hash = none ∧ other.lookup hash = none) ∨
      ∃ pindex pindex', index.lookup hash = some pindex ∧ other.lookup hash = some pindex' ∧
        pindex'.lasting = pindex.lasting := by
  have same := agree.same hash mem
  cases found : index.lookup hash with
  | none =>
    rw [found, Option.map_none, Option.map_eq_none_iff] at same
    exact .inl ⟨rfl, same⟩
  | some pindex =>
    rw [found, Option.map_some] at same
    obtain ⟨pindex', found', lasting⟩ := Option.map_eq_some_iff.mp same
    exact .inr ⟨pindex, pindex', rfl, found', lasting⟩

theorem map_lookup (agree : AgreeOn blocks index other) (mem : hash ∈ blocks) {β : Type}
    (read : CBlockIndex → β) (reads : ∀ pindex, read pindex.lasting = read pindex) :
    (other.lookup hash).map read = (index.lookup hash).map read :=
  CBlockIndex.map_lasting_congr (agree.same hash mem) read reads

theorem isSome_lookup (agree : AgreeOn blocks index other) (mem : hash ∈ blocks) :
    (other.lookup hash).isSome = (index.lookup hash).isSome := by
  rw [← Option.isSome_map (f := CBlockIndex.lasting), agree.same hash mem, Option.isSome_map]

theorem self (agree : AgreeOn blocks index other) : AgreeOn blocks index index :=
  ⟨fun _ _ => rfl, agree.within⟩

theorem congr (agree : AgreeOn blocks index other) {later : BlockMap}
    (same : ∀ hash ∈ blocks, later.lookup hash = other.lookup hash) : AgreeOn blocks index later where
  same hash mem := by rw [same hash mem, agree.same hash mem]
  within := agree.within

theorem modify (agree : AgreeOn blocks index other) (outside : hash ∉ blocks)
    (change : CBlockIndex → CBlockIndex) : AgreeOn blocks index (other.modify hash change) := by
  refine agree.congr fun target mem => BlockMap.lookup_modify_of_ne ?_
  rintro rfl
  exact outside mem

/-! ### Chains -/

theorem entriesFrom_eq (agree : AgreeOn blocks index other) (limit : Nat) (prev : Option Uint256)
    (mem : ∀ hash, prev = some hash → hash ∈ blocks) :
    other.entriesFrom limit prev = index.entriesFrom limit prev := by
  induction limit generalizing prev with
  | zero => rfl
  | succ limit ih =>
    cases prev with
    | none => rfl
    | some hash =>
      have inside := mem hash rfl
      rw [BlockMap.entriesFrom, BlockMap.entriesFrom]
      rcases agree.lookup inside with ⟨missing, missing'⟩ | ⟨pindex, pindex', found, found', same⟩
      · rw [missing, missing']
      · rw [found, found']
        dsimp only
        rw [CBlockIndex.lasting_congr same CBlockIndex.blockEntry fun _ => rfl,
          CBlockIndex.lasting_congr same CBlockIndex.pprev fun _ => rfl,
          ih pindex.pprev (agree.within hash inside pindex found).prev_mem]

section Entry

variable {pindex pindex' : CBlockIndex} (agree : AgreeOn blocks index other) (mem : hash ∈ blocks)
  (found : index.lookup hash = some pindex) (same : pindex'.lasting = pindex.lasting)
include agree mem found same

theorem chainOf_eq : other.chainOf pindex' = index.chainOf pindex := by
  rw [BlockMap.chainOf, BlockMap.chainOf,
    CBlockIndex.lasting_congr same CBlockIndex.blockEntry fun _ => rfl,
    CBlockIndex.lasting_congr same CBlockIndex.nHeight fun _ => rfl,
    CBlockIndex.lasting_congr same CBlockIndex.pprev fun _ => rfl,
    agree.entriesFrom_eq _ _ (agree.within hash mem pindex found).prev_mem]

theorem getMedianTimePast_eq : other.getMedianTimePast pindex' = index.getMedianTimePast pindex := by
  rw [BlockMap.getMedianTimePast, BlockMap.getMedianTimePast,
    CBlockIndex.lasting_congr same CBlockIndex.blockEntry fun _ => rfl,
    CBlockIndex.lasting_congr same CBlockIndex.pprev fun _ => rfl,
    agree.entriesFrom_eq _ _ (agree.within hash mem pindex found).prev_mem]

end Entry

theorem ancestorBelow_eq (agree : AgreeOn blocks index other) (steps : Nat) {hash : Uint256}
    (mem : hash ∈ blocks) : other.ancestorBelow steps hash = index.ancestorBelow steps hash := by
  induction steps generalizing hash with
  | zero => rfl
  | succ steps ih =>
    rw [BlockMap.ancestorBelow, BlockMap.ancestorBelow]
    rcases agree.lookup mem with ⟨missing, missing'⟩ | ⟨pindex, pindex', found, found', same⟩
    · rw [missing, missing']
    · rw [found, found']
      dsimp only
      rw [CBlockIndex.lasting_congr same CBlockIndex.pprev fun _ => rfl]
      cases isPrev : pindex.pprev with
      | none => rfl
      | some prev => exact ih ((agree.within _ mem pindex found).prev_mem prev isPrev)

theorem getAncestor_eq (agree : AgreeOn blocks index other) (mem : hash ∈ blocks) (height : Nat) :
    other.getAncestor hash height = index.getAncestor hash height := by
  rw [BlockMap.getAncestor, BlockMap.getAncestor]
  rcases agree.lookup mem with ⟨missing, missing'⟩ | ⟨pindex, pindex', found, found', same⟩
  · rw [missing, missing']
  · rw [found, found']
    dsimp only
    rw [CBlockIndex.lasting_congr same CBlockIndex.nHeight fun _ => rfl, agree.ancestorBelow_eq _ mem]

theorem ancestorBelow_mem (agree : AgreeOn blocks index other) {steps : Nat} {hash below : Uint256}
    (mem : hash ∈ blocks) (isBelow : index.ancestorBelow steps hash = some below) :
    below ∈ blocks := by
  induction steps generalizing hash with
  | zero => rwa [← Option.some.inj isBelow]
  | succ steps ih =>
    rw [BlockMap.ancestorBelow] at isBelow
    split at isBelow
    · cases isBelow
    next pindex found =>
      split at isBelow
      · cases isBelow
      next prev isPrev => exact ih ((agree.within _ mem pindex found).prev_mem prev isPrev) isBelow

theorem getAncestor_mem (agree : AgreeOn blocks index other) {height : Nat} {below : Uint256}
    (mem : hash ∈ blocks) (isBelow : index.getAncestor hash height = some below) :
    below ∈ blocks := by
  rw [BlockMap.getAncestor] at isBelow
  split at isBelow
  · cases isBelow
  · split at isBelow
    · cases isBelow
    · exact agree.ancestorBelow_mem mem isBelow

/-! ### Headers -/

variable {env : ChainEnv}

theorem checkExtraParents_eq (agree : AgreeOn blocks index other) (hashPrevBlock : Uint256)
    (prevHeight : Nat) (seen parents : List Uint256) (inside : ∀ parent ∈ parents, parent ∈ blocks) :
    checkExtraParents other hashPrevBlock prevHeight seen parents
      = checkExtraParents index hashPrevBlock prevHeight seen parents := by
  induction parents generalizing seen with
  | nil => rfl
  | cons parent rest ih =>
    rw [List.forall_mem_cons] at inside
    rw [checkExtraParents, checkExtraParents, ih _ inside.2, agree.getAncestor_eq inside.1]
    rcases agree.lookup inside.1 with ⟨missing, missing'⟩ | ⟨pindex, pindex', found, found', same⟩
    · rw [missing, missing']
    · rw [found, found']
      dsimp only
      rw [CBlockIndex.lasting_congr same (·.nStatus.failed) fun _ => rfl,
        CBlockIndex.lasting_congr same CBlockIndex.nHeight fun _ => rfl]

def NoCheckpoint (env : ChainEnv) (index : BlockMap) : Prop :=
  env.checkpointsEnabled = true → ∀ hash ∈ env.checkpoints, index.lookup hash = none

theorem NoCheckpoint.not_behind (unchecked : NoCheckpoint env index) (nHeight : Nat) :
    ¬ (env.checkpointsEnabled = true ∧
      (getLastCheckpoint env index).any (nHeight < ·.nHeight) = true) := by
  rintro ⟨enabled, behind⟩
  have none : getLastCheckpoint env index = none :=
    List.findSome?_eq_none_iff.mpr (unchecked enabled)
  simp [none] at behind

theorem checkNewHeader_eq (agree : AgreeOn blocks index other) (unchecked : NoCheckpoint env index)
    (unchecked' : NoCheckpoint env other) (now : Int) {block : CBlockHeader}
    (listed : ∀ parent ∈ listedParents block, parent ∈ blocks) :
    checkNewHeader env other now block = checkNewHeader env index now block := by
  have prevMem := listed block.hashPrevBlock List.mem_cons_self
  rw [checkNewHeader, checkNewHeader]
  rcases agree.lookup prevMem with ⟨missing, missing'⟩ | ⟨pindex, pindex', found, found', same⟩
  · rw [missing, missing']
  · have contextual : contextualCheckBlockHeader env other now block pindex'
        = contextualCheckBlockHeader env index now block pindex := by
      have sameHeight := CBlockIndex.lasting_congr same CBlockIndex.nHeight fun _ => rfl
      have sameEntry := CBlockIndex.lasting_congr same CBlockIndex.blockEntry fun _ => rfl
      simp only [contextualCheckBlockHeader, refuseIf, sameHeight, sameEntry,
        agree.chainOf_eq prevMem found same, agree.getMedianTimePast_eq prevMem found same,
        if_neg (unchecked.not_behind _), if_neg (unchecked'.not_behind _)]
    have extra : checkDagParents env other block pindex' = checkDagParents env index block pindex := by
      rw [checkDagParents, checkDagParents]
      split
      next dag =>
        have isDag : block.isDagBlock = true := (Bool.and_eq_true_iff.mp dag).1
        rw [CBlockIndex.lasting_congr same CBlockIndex.nHeight fun _ => rfl,
          agree.checkExtraParents_eq _ _ _ _ fun parent mem =>
            listed parent (List.mem_cons_of_mem _ (by rwa [dagParents, if_pos isDag]))]
      · rfl
    rw [found, found']
    dsimp only
    rw [contextual, extra, CBlockIndex.lasting_congr same (·.nStatus.failed) fun _ => rfl]

theorem newEntry_eq (agree : AgreeOn blocks index other) (outside : hash ∉ blocks)
    (own : CBlockIndex) {block : CBlockHeader}
    (listed : ∀ parent ∈ listedParents block, parent ∈ blocks) :
    newEntry (other.insert hash own) block = newEntry (index.insert hash own) block := by
  have ne : ∀ {parent}, parent ∈ blocks → parent ≠ hash := by
    rintro parent mem rfl
    exact outside mem
  have prevMem := listed block.hashPrevBlock List.mem_cons_self
  have filtered : (if block.isDagBlock then block.hashParents.filter fun parent =>
        ((other.insert hash own).lookup parent).isSome else [])
      = if block.isDagBlock then block.hashParents.filter fun parent =>
        ((index.insert hash own).lookup parent).isSome else [] := by
    split
    next isDag =>
      refine List.filter_congr fun parent mem => ?_
      have inside := listed parent (List.mem_cons_of_mem _ (by rwa [dagParents, if_pos isDag]))
      rw [AList.lookup_insert_ne (ne inside), AList.lookup_insert_ne (ne inside),
        agree.isSome_lookup inside]
    · rfl
  rw [newEntry, newEntry, filtered, AList.lookup_insert_ne (ne prevMem),
    AList.lookup_insert_ne (ne prevMem)]
  rcases agree.lookup prevMem with ⟨missing, missing'⟩ | ⟨pindex, pindex', found, found', same⟩
  · rw [missing, missing']
  · rw [found, found']
    simp only [Option.elim_some, Option.map_some,
      CBlockIndex.lasting_congr same CBlockIndex.nHeight fun _ => rfl,
      CBlockIndex.lasting_congr same CBlockIndex.nChainWork fun _ => rfl]

/-- **A header's verdict depends on its past only.** -/
theorem headerVerdict_eq (agree : AgreeOn blocks index other) (unchecked : NoCheckpoint env index)
    (unchecked' : NoCheckpoint env other) {block : CBlockHeader} (outside : env.hashOf block ∉ blocks)
    (listed : ∀ parent ∈ listedParents block, parent ∈ blocks) :
    headerVerdict env other block = headerVerdict env index block := by
  rw [headerVerdict, headerVerdict, agree.checkNewHeader_eq unchecked unchecked' _ listed,
    agree.newEntry_eq outside _ listed]

/-! ### Bodies -/

theorem resolveDagParents_eq (agree : AgreeOn blocks index other) (parents : List Uint256)
    (inside : ∀ parent ∈ parents, parent ∈ blocks) :
    resolveDagParents other parents = resolveDagParents index parents := by
  induction parents with
  | nil => rfl
  | cons parent rest ih =>
    rw [List.forall_mem_cons] at inside
    rw [resolveDagParents, resolveDagParents, ih inside.2]
    rcases agree.lookup inside.1 with ⟨missing, missing'⟩ | ⟨pindex, pindex', found, found', same⟩
    · rw [missing, missing']
    · rw [found, found']
      dsimp only
      rw [CBlockIndex.lasting_congr same (·.nStatus.failed) fun _ => rfl]

theorem computeGhostdag_eq (agree : AgreeOn blocks index other) (k : Nat) {parents : List Uint256}
    (inside : ∀ parent ∈ parents, parent ∈ blocks) :
    computeGhostdag other.provider k parents = computeGhostdag index.provider k parents := by
  have view : ∀ hash ∈ blocks, other.dagView.bare hash = index.dagView.bare hash := by
    intro hash mem
    rw [DagView.bare, DagView.bare, BlockMap.dagView, BlockMap.dagView, Option.map_map,
      Option.map_map]
    exact agree.map_lookup mem _ fun _ => rfl
  have closed : Closed index.dagView.getParents blocks := by
    intro hash mem parent isParent
    rw [DagView.getParents, BlockMap.dagView] at isParent
    cases found : index.lookup hash with
    | none =>
      simp [found] at isParent
    | some pindex =>
      rw [found] at isParent
      exact (agree.within hash mem pindex found).parents parent isParent
  have selected : ∀ block ∈ blocks, ∀ entry, index.dagView block = some entry →
      entry.dagData.selectedParent = 0 ∨ entry.dagData.selectedParent ∈ blocks := by
    intro hash mem entry found
    obtain ⟨pindex, isEntry, rfl⟩ := Option.map_eq_some_iff.mp found
    exact (agree.within hash mem pindex isEntry).selected
  exact DagView.computeGhostdag_congr closed selected view _ inside

theorem scoreParents_cases (env : ChainEnv) (agree : AgreeOn blocks index other)
    {parents : List Uint256} (inside : ∀ parent ∈ parents, parent ∈ blocks)
    {dagData dagData' : GhostdagData} (same : dagData'.bare = dagData.bare) :
    (∃ invalid invalid', scoreParents env index.provider parents dagData = .error invalid ∧
        scoreParents env other.provider parents dagData' = .error invalid') ∨
      ∃ scored scored', scoreParents env index.provider parents dagData = .ok scored ∧
        scoreParents env other.provider parents dagData' = .ok scored' ∧
        scored'.bare = scored.bare := by
  have known : (parents.any fun parent => (other.provider.getGhostdagData parent).isNone)
      = parents.any fun parent => (index.provider.getGhostdagData parent).isNone := by
    rw [Bool.eq_iff_iff, List.any_eq_true, List.any_eq_true]
    refine exists_congr fun parent => and_congr_right fun mem => ?_
    simp only [BlockMap.provider, DagView.provider, BlockMap.dagView, Option.isNone_map]
    rw [← Option.not_isSome, ← Option.not_isSome, agree.isSome_lookup (inside parent mem)]
  rw [scoreParents, scoreParents, agree.computeGhostdag_eq _ inside, known]
  split
  · refine .inr ⟨_, _, rfl, rfl, ?_⟩
    exact congrArg (fun data : GhostdagData => { data with blueScore := 0, blueWork := 0 }) same
  · grind

section Body

variable {block : CBlock} {pindex pindex' : CBlockIndex} (agree : AgreeOn blocks index other)
  (same : pindex'.lasting = pindex.lasting)
include agree same

theorem checkBody_eq (prevMem : ∀ prev, pindex.pprev = some prev → prev ∈ blocks) :
    checkBody env other block pindex' = checkBody env index block pindex := by
  rw [checkBody, checkBody, CBlockIndex.lasting_congr same CBlockIndex.pprev fun _ => rfl]
  cases isPrev : pindex.pprev with
  | none => rfl
  | some prev =>
    dsimp only [Option.bind_some]
    rcases agree.lookup (prevMem prev isPrev) with
      ⟨missing, missing'⟩ | ⟨entry, entry', found, found', sameEntry⟩
    · rw [missing, missing', Option.map_none, Option.map_none]
    · rw [found, found', Option.map_some, Option.map_some,
        agree.chainOf_eq (prevMem prev isPrev) found sameEntry]

theorem linkedCount_eq (prevMem : ∀ prev, pindex.pprev = some prev → prev ∈ blocks) :
    linkedCount other pindex' = linkedCount index pindex := by
  rw [linkedCount, linkedCount, prevTxSum, prevTxSum,
    CBlockIndex.lasting_congr same CBlockIndex.pprev fun _ => rfl,
    CBlockIndex.lasting_congr same CBlockIndex.nTx fun _ => rfl]
  cases isPrev : pindex.pprev with
  | none => rfl
  | some prev =>
    rcases agree.lookup (prevMem prev isPrev) with
      ⟨missing, missing'⟩ | ⟨entry, entry', found, found', sameEntry⟩
    · simp only [Option.bind_some, missing, missing']
    · simp only [Option.bind_some, found, found', Option.all_some,
        CBlockIndex.lasting_congr sameEntry CBlockIndex.haveNumChainTxs fun _ => rfl,
        CBlockIndex.lasting_congr sameEntry CBlockIndex.mChainTxCount fun _ => rfl]

theorem storedEntry_eq (prevMem : ∀ prev, pindex.pprev = some prev → prev ∈ blocks) :
    (storedEntry other block pindex').lasting = (storedEntry index block pindex).lasting := by
  have received : (pindex'.setData block.vtx).lasting = (pindex.setData block.vtx).lasting :=
    CBlockIndex.lasting_congr same (fun p => (p.setData block.vtx).lasting) fun _ => rfl
  rw [storedEntry, storedEntry, agree.linkedCount_eq received prevMem]
  exact CBlockIndex.lasting_congr received (fun p => (p.setCount _).lasting) fun _ => rfl

variable (listed : ∀ parent ∈ dagParents block.toCBlockHeader, parent ∈ blocks)
  (within : pindex.Within blocks)
include listed

theorem resolvedParents_eq :
    resolvedParents other block pindex' = resolvedParents index block pindex := by
  rw [resolvedParents, resolvedParents,
    CBlockIndex.lasting_congr same CBlockIndex.vDagParents fun _ => rfl]
  split
  next again =>
    rw [dagParents, if_pos (Bool.and_eq_true_iff.mp again).1] at listed
    rw [agree.resolveDagParents_eq _ listed]
  · rfl

include within

theorem scoreVerdict_eq :
    (∃ refused refused', scoreVerdict env index block pindex = .error refused ∧
        scoreVerdict env other block pindex' = .error refused' ∧
        refused'.lasting = refused.lasting) ∨
      ∃ scored scored', scoreVerdict env index block pindex = .ok scored ∧
        scoreVerdict env other block pindex' = .ok scored' ∧
        scored'.lasting = scored.lasting := by
  rw [scoreVerdict, scoreVerdict, agree.resolvedParents_eq same listed]
  split
  · have samePrev := CBlockIndex.lasting_congr same CBlockIndex.pprev fun _ => rfl
    have parentsInside := resolvedParents_mem index listed within
    revert parentsInside
    rcases resolvedParents index block pindex with ⟨vDagParents, unresolved⟩
    intro parentsInside
    have parented : (pindex'.setParents vDagParents).lasting
        = (pindex.setParents vDagParents).lasting :=
      CBlockIndex.lasting_congr same (fun p => (p.setParents vDagParents).lasting) fun _ => rfl
    cases unresolved with
    | some invalid => exact .inl ⟨_, _, rfl, rfl, parented⟩
    | none =>
      have scores := agree.scoreParents_cases env parentsInside
        (CBlockIndex.lasting_congr same (·.dagData.bare) fun _ => rfl)
      dsimp only
      rw [samePrev]
      rcases scores with ⟨invalid, invalid', error, error'⟩ | ⟨dagData, dagData', ok, ok', bare⟩
      · rw [error, error']
        exact .inl ⟨_, _, rfl, rfl, parented⟩
      · simp [ok, ok', CBlockIndex.lasting_setScore, parented, bare]
  · exact .inr ⟨_, _, rfl, rfl, same⟩

/-- **A body's verdict depends on its past only.** -/
theorem bodyVerdict_eq :
    (bodyVerdict env other block pindex').lasting = (bodyVerdict env index block pindex).lasting := by
  rw [bodyVerdict, bodyVerdict, agree.checkBody_eq same within.prev_mem]
  split
  · split
    · exact same
    · exact CBlockIndex.lasting_congr same (·.setFailedValid.lasting) fun _ => rfl
  · rcases agree.scoreVerdict_eq same listed within with
      ⟨refused, refused', isRefused, isRefused', sameRefused⟩ |
      ⟨scored, scored', isScored, isScored', sameScored⟩
    · rwa [isRefused, isRefused']
    · rw [isScored, isScored']
      refine agree.storedEntry_eq sameScored ?_
      rw [(scoreVerdict_ok isScored).1]
      exact within.prev_mem

end Body

end AgreeOn

end QuantBTC.Node
