/-
# Node.OwnEntry -- what an arrival does to its own entry

When a block arrives after its parents, and none of them is marked as failed, nothing waits
for it and no failed block is found below it.  Then its header and its body change no entry
but its own, and that one as the verdicts over the block's past say.
-/
import QuantBTC.Node.Verdict

namespace QuantBTC.Node

set_option autoImplicit false

open Primitives Dag ChainstateManager

/-! ## Changes of one entry -/

structure OnlyAt (blocks : Set Uint256) (hash : Uint256) (chainman later : ChainstateManager) :
    Prop where
  others : ∀ other, other ≠ hash →
    later.blockIndex.lookup other = chainman.blockIndex.lookup other
  failedBlocks : later.failedBlocks = chainman.failedBlocks
  unlinked : ∀ pair ∈ later.blocksUnlinked, pair ∈ chainman.blocksUnlinked ∨
    pair.1 ≠ hash ∧ pair.1 ∈ blocks ∧ (chainman.blockIndex.lookup pair.1).isSome

namespace OnlyAt

variable {blocks : Set Uint256} {hash : Uint256} {chainman middle later : ChainstateManager}

theorem refl (chainman : ChainstateManager) : OnlyAt blocks hash chainman chainman :=
  ⟨fun _ _ => rfl, rfl, fun _ mem => .inl mem⟩

theorem trans (first : OnlyAt blocks hash chainman middle) (second : OnlyAt blocks hash middle later) :
    OnlyAt blocks hash chainman later where
  others other ne := (second.others other ne).trans (first.others other ne)
  failedBlocks := second.failedBlocks.trans first.failedBlocks
  unlinked pair mem := by
    rcases second.unlinked pair mem with old | ⟨ne, inside, known⟩
    · exact first.unlinked pair old
    · exact .inr ⟨ne, inside, by rwa [← first.others pair.1 ne]⟩

theorem agree (only : OnlyAt blocks hash chainman later) (outside : hash ∉ blocks)
    {index : BlockMap} (agree : AgreeOn blocks index chainman.blockIndex) :
    AgreeOn blocks index later.blockIndex :=
  agree.congr fun other mem => only.others other fun same => outside (same ▸ mem)

theorem noneWaits (only : OnlyAt blocks hash chainman later)
    (before : ∀ pair ∈ chainman.blocksUnlinked, pair.1 ≠ hash) :
    ∀ pair ∈ later.blocksUnlinked, pair.1 ≠ hash := by
  intro pair mem
  rcases only.unlinked pair mem with old | ⟨ne, _⟩
  · exact before pair old
  · exact ne

theorem modify {change : CBlockIndex → CBlockIndex}
    (index : later.blockIndex = chainman.blockIndex.modify hash change)
    (failedBlocks : later.failedBlocks = chainman.failedBlocks)
    (unlinked : ∀ pair ∈ later.blocksUnlinked, pair ∈ chainman.blocksUnlinked) :
    OnlyAt blocks hash chainman later where
  others other ne := by rw [index, BlockMap.lookup_modify_of_ne ne]
  failedBlocks := failedBlocks
  unlinked pair mem := .inl (unlinked pair mem)

end OnlyAt

section Arrival

variable {env : ChainEnv} {blocks : Set Uint256} {index : BlockMap} {chainman : ChainstateManager}

/-! ## Headers -/

theorem checkNewHeader_clock (index : BlockMap) {now : Int} {block : CBlockHeader}
    (early : (block.nTime.toNat : Int) ≤ now + maxFutureBlockTime) :
    checkNewHeader env index now block = checkNewHeader env index block.nTime.toNat block := by
  grind [maxFutureBlockTime, checkNewHeader, contextualCheckBlockHeader, refuseIf]

theorem failedAncestor_eq_none (agree : AgreeOn blocks index chainman.blockIndex)
    (unmarked : ∀ failed ∈ chainman.failedBlocks, failed ∉ blocks) {hashPrev : Uint256}
    (mem : hashPrev ∈ blocks) : chainman.failedAncestor hashPrev = none := by
  rw [failedAncestor]
  split
  · rfl
  · split
    · rfl
    · rw [List.find?_eq_none]
      intro failed isFailed
      cases chainman.blockIndex.lookup failed with
      | none => exact Bool.false_ne_true
      | some entry =>
        dsimp only
        rw [agree.getAncestor_eq mem, decide_eq_true_eq]
        intro below
        exact unmarked failed isFailed (agree.getAncestor_mem mem below)

theorem acceptBlockHeader_verdict (agree : AgreeOn blocks index chainman.blockIndex)
    (unchecked : AgreeOn.NoCheckpoint env index)
    (unchecked' : AgreeOn.NoCheckpoint env chainman.blockIndex)
    (unmarked : ∀ failed ∈ chainman.failedBlocks, failed ∉ blocks) {block : CBlockHeader} {now : Int}
    (listed : ∀ parent ∈ listedParents block, parent ∈ blocks) (outside : env.hashOf block ∉ blocks)
    (notGenesis : env.hashOf block ≠ env.hashGenesisBlock)
    (early : (block.nTime.toNat : Int) ≤ now + maxFutureBlockTime) :
    ∃ later result, chainman.acceptBlockHeader env now true block = (later, result) ∧
      OnlyAt blocks (env.hashOf block) chainman later ∧
      later.blockIndex.lookup (env.hashOf block)
        = (chainman.blockIndex.lookup (env.hashOf block)).or (headerVerdict env index block) ∧
      ((∃ invalid, result = .error invalid ∧
          (later.blockIndex.lookup (env.hashOf block)).all (·.nStatus.failed)) ∨
        result = .ok (env.hashOf block) ∧
          ∃ pindex, later.blockIndex.lookup (env.hashOf block) = some pindex ∧
            pindex.nStatus.failed = false) := by
  rw [acceptBlockHeader, if_neg notGenesis]
  cases known : chainman.blockIndex.lookup (env.hashOf block) with
  | some pindex =>
    dsimp only
    split
    next failed =>
      exact ⟨_, _, rfl, .refl _, known, .inl ⟨_, rfl, by rw [known]; exact failed⟩⟩
    next sound =>
      exact ⟨_, _, rfl, .refl _, known, .inr ⟨rfl, pindex, known, Bool.eq_false_iff.mpr sound⟩⟩
  | none =>
    have same := agree.checkNewHeader_eq unchecked unchecked' now listed
    rw [checkNewHeader_clock index early] at same
    dsimp only
    rw [same, failedAncestor_eq_none agree unmarked (listed _ List.mem_cons_self), headerVerdict]
    split
    next invalid refused =>
      rw [if_neg (by rw [refused]; exact Option.some_ne_none invalid)]
      exact ⟨_, _, rfl, .refl _, known, .inl ⟨_, rfl, by rw [known]; rfl⟩⟩
    next passed =>
      have added := lookup_addToBlockIndex known
      have self := (added (env.hashOf block)).trans (if_pos rfl)
      rw [agree.newEntry_eq outside _ listed] at self
      refine ⟨_, _, rfl, ?_, ?_, .inr ⟨rfl, _, self, (newEntry_fresh _ _).1⟩⟩
      · refine ⟨fun other ne => (added other).trans (if_neg ne), ?_, ?_⟩
        all_goals grind [addToBlockIndex]
      · rw [if_pos passed, self, Option.none_or]

/-! ## Bodies -/

section Body

variable {hash : Uint256} {block : CBlock} {pindex : CBlockIndex}

theorem scoreBlock_verdict (env : ChainEnv) (agree : AgreeOn blocks index chainman.blockIndex) (outside : hash ∉ blocks)
    (listed : ∀ parent ∈ dagParents block.toCBlockHeader, parent ∈ blocks)
    (found : chainman.blockIndex.lookup hash = some pindex) (within : pindex.Within blocks) :
    ∃ later result, scoreBlock env chainman block hash pindex = (later, result) ∧
      OnlyAt blocks hash chainman later ∧
      ((∃ invalid refused, result = some invalid ∧
          scoreVerdict env index block pindex = .error refused ∧
          later.blockIndex.lookup hash = some refused) ∨
        ∃ scored scored', result = none ∧ scoreVerdict env index block pindex = .ok scored ∧
          later.blockIndex.lookup hash = some scored' ∧ scored'.lasting = scored.lasting) := by
  rw [scoreBlock, scoreVerdict, agree.resolvedParents_eq rfl listed]
  split
  · have inside := resolvedParents_mem index listed within
    revert inside
    rcases resolvedParents index block pindex with ⟨vDagParents, unresolved⟩
    intro inside
    have parented : (chainman.blockIndex.modify hash (CBlockIndex.setParents vDagParents)).lookup hash
        = some (pindex.setParents vDagParents) := by
      rw [BlockMap.lookup_modify_self, found, Option.map_some]
    cases unresolved with
    | some invalid =>
      exact ⟨_, _, rfl, .modify rfl rfl fun _ mem => mem, .inl ⟨_, _, rfl, rfl, parented⟩⟩
    | none =>
      have scores := (agree.modify outside (CBlockIndex.setParents vDagParents)).scoreParents_cases
        env inside (rfl : pindex.dagData.bare = pindex.dagData.bare)
      dsimp only
      rcases scores with ⟨invalid, invalid', error, error'⟩ | ⟨dagData, dagData', ok, ok', bare⟩
      · rw [error, error']
        exact ⟨_, _, rfl, .modify rfl rfl fun _ mem => mem, .inl ⟨_, _, rfl, rfl, parented⟩⟩
      · rw [ok, ok']
        refine ⟨_, _, rfl, .modify (BlockMap.modify_modify _) rfl fun _ mem => mem,
          .inr ⟨_, (pindex.setParents vDagParents).setScore dagData', rfl, rfl, ?_, ?_⟩⟩
        · rw [BlockMap.lookup_modify_self, parented, Option.map_some]
        · rw [CBlockIndex.lasting_setScore, CBlockIndex.lasting_setScore, bare]
  · exact ⟨_, _, rfl, .refl _, .inr ⟨_, _, rfl, rfl, found, rfl⟩⟩

theorem linkDescendants_single (noWaiting : ∀ pair ∈ chainman.blocksUnlinked, pair.1 ≠ hash)
    (fuel : Nat) :
    linkDescendants (fuel + 1) [hash] chainman =
      { chainman with
        blockIndex := chainman.blockIndex.modify hash fun pindex =>
          { pindex with
            mChainTxCount := prevTxSum chainman.blockIndex pindex
            nSequenceId := chainman.nBlockSequenceId }
        nBlockSequenceId := chainman.nBlockSequenceId + 1
        blocksUnlinked := chainman.blocksUnlinked.filter (·.1 ≠ hash) } := by
  have none_ : chainman.blocksUnlinked.filter (·.1 = hash) = [] := by
    rw [List.filter_eq_nil_iff]
    intro pair mem
    simpa using noWaiting pair mem
  rw [linkDescendants, none_, List.map_nil, List.append_nil]
  cases fuel with
  | zero => rfl
  | succ fuel => rfl

theorem receivedEntry_lasting (index : BlockMap) (block : CBlock)
    (uncounted : pindex.mChainTxCount = 0) :
    (receivedEntry index block pindex).lasting = (pindex.setData block.vtx).lasting := by
  have counted : (pindex.setData block.vtx).mChainTxCount = 0 := uncounted
  rw [receivedEntry, CBlockIndex.lasting_raiseValidity, counted]
  simp only [BEq.rfl, Bool.true_or, if_true]
  rw [← counted]

section Received

variable {entry : CBlockIndex} (agree : AgreeOn blocks index chainman.blockIndex)
  (found : chainman.blockIndex.lookup hash = some entry)
  (marked : entry.lasting = (pindex.setData block.vtx).lasting) (within : pindex.Within blocks)
include agree marked within

theorem storedEntry_received : (storedEntry index block pindex).lasting
    = (entry.setCount (linkedCount chainman.blockIndex entry)).lasting := by
  rw [storedEntry, agree.linkedCount_eq marked within.prev_mem]
  exact (CBlockIndex.lasting_congr marked (fun p => (p.setCount _).lasting) fun _ => rfl).symm

include found

theorem linkDescendants_verdict (noWaiting : ∀ pair ∈ chainman.blocksUnlinked, pair.1 ≠ hash)
    (counted : (entry.pprev.bind fun prev => chainman.blockIndex.lookup prev).all (·.haveNumChainTxs)
      = true) (fuel : Nat) :
    OnlyAt blocks hash chainman (linkDescendants (fuel + 1) [hash] chainman) ∧
      ∃ stored, (linkDescendants (fuel + 1) [hash] chainman).blockIndex.lookup hash = some stored ∧
        stored.lasting = (storedEntry index block pindex).lasting := by
  rw [linkDescendants_single noWaiting, storedEntry_received agree marked within]
  refine ⟨.modify rfl rfl fun _ mem => List.mem_of_mem_filter mem, _,
    BlockMap.lookup_modify_self.trans (congrArg (Option.map _) found), ?_⟩
  rw [linkedCount, if_pos counted]
  rfl

end Received

theorem receivedBlockTransactions_verdict (block : CBlock)
    (agree : AgreeOn blocks index chainman.blockIndex) (outside : hash ∉ blocks) (found : chainman.blockIndex.lookup hash = some pindex)
    (within : pindex.Within blocks) (uncounted : pindex.mChainTxCount = 0)
    (noWaiting : ∀ pair ∈ chainman.blocksUnlinked, pair.1 ≠ hash) :
    OnlyAt blocks hash chainman (chainman.receivedBlockTransactions block hash pindex.pprev) ∧
      ∃ stored, (chainman.receivedBlockTransactions block hash pindex.pprev).blockIndex.lookup hash
          = some stored ∧ stored.lasting = (storedEntry index block pindex).lasting := by
  have received : OnlyAt blocks hash chainman
      (chainman.modifyDirty hash (receivedEntry chainman.blockIndex block)) :=
    .modify rfl rfl fun _ mem => mem
  have agreeReceived : AgreeOn blocks index
      (chainman.modifyDirty hash (receivedEntry chainman.blockIndex block)).blockIndex :=
    agree.modify outside _
  have self : (chainman.modifyDirty hash (receivedEntry chainman.blockIndex block)).blockIndex.lookup
      hash = some (receivedEntry chainman.blockIndex block pindex) :=
    BlockMap.lookup_modify_self.trans (congrArg (Option.map _) found)
  have noneWaits : ∀ pair ∈ (chainman.modifyDirty hash
      (receivedEntry chainman.blockIndex block)).blocksUnlinked, pair.1 ≠ hash := noWaiting
  have marked := receivedEntry_lasting chainman.blockIndex block uncounted
  have samePrev : (receivedEntry chainman.blockIndex block pindex).pprev = pindex.pprev :=
    CBlockIndex.lasting_congr marked CBlockIndex.pprev fun _ => rfl
  have still : (receivedEntry chainman.blockIndex block pindex).mChainTxCount = 0 :=
    (CBlockIndex.lasting_congr marked CBlockIndex.mChainTxCount fun _ => rfl).trans uncounted
  have linked := linkDescendants_verdict agreeReceived self marked within noneWaits
  have alone := storedEntry_received agreeReceived marked within
  rw [linkedCount] at alone
  rw [samePrev] at linked alone
  rw [receivedBlockTransactions]
  split
  next noPrev => exact (linked (by rw [noPrev]; rfl) _).imp_left received.trans
  next prev isPrev =>
    split
    next counted => exact (linked (by rw [isPrev]; exact counted) _).imp_left received.trans
    next uncountedPrev =>
      rw [if_neg (by rw [isPrev]; exact uncountedPrev), ← still] at alone
      split
      · refine ⟨received.trans ⟨fun _ _ => rfl, rfl, ?_⟩, _, self, alone.symm⟩
        intro pair mem
        rcases List.mem_append.mp mem with old | new
        · exact .inl old
        · obtain ⟨waiting, isWaiting, known⟩ := Option.bind_eq_some_iff.mp isPrev
          rw [isWaiting, Option.map_some, Option.toList_some, List.mem_singleton] at new
          have inside := within.prev_mem waiting isWaiting
          grind
      · exact ⟨received, _, self, alone.symm⟩

theorem updateTips_onlyAt : OnlyAt blocks hash chainman (chainman.updateTips env hash) := by
  rw [updateTips]
  split
  · exact .refl _
  · split
    · exact ⟨fun _ _ => rfl, rfl, fun _ mem => .inl mem⟩
    · exact .refl _

/-- **The body of a block follows its verdict.** -/
theorem acceptBody_verdict (env : ChainEnv) (agree : AgreeOn blocks index chainman.blockIndex)
    (outside : hash ∉ blocks)
    (listed : ∀ parent ∈ dagParents block.toCBlockHeader, parent ∈ blocks)
    (found : chainman.blockIndex.lookup hash = some pindex) (within : pindex.Within blocks)
    (pending : pindex.nStatus.haveData = false) (uncounted : pindex.mChainTxCount = 0)
    (noWaiting : (bodyVerdict env index block pindex).nStatus.haveData = true →
      ∀ pair ∈ chainman.blocksUnlinked, pair.1 ≠ hash) {input : BodyInput}
    (requested : input.fRequested = true) :
    OnlyAt blocks hash chainman (chainman.acceptBody env input block hash pindex).1 ∧
      ∃ later, (chainman.acceptBody env input block hash pindex).1.blockIndex.lookup hash
          = some later ∧ later.lasting = (bodyVerdict env index block pindex).lasting := by
  have processed : skipsBody env chainman.blockIndex input pindex = false := by
    simp [skipsBody, pending, requested]
  revert noWaiting
  rw [acceptBody, processed, if_neg Bool.false_ne_true, agree.checkBody_eq rfl within.prev_mem,
    bodyVerdict]
  rcases checkBody env index block pindex with _ | invalid
  · intro noWaiting
    obtain ⟨middle, result, isScore, only,
        ⟨invalid, refused, rfl, verdict, self⟩ | ⟨scored, scored', rfl, verdict, self, same⟩⟩ :=
      scoreBlock_verdict env agree outside listed found within
    · rw [isScore, verdict]
      exact ⟨only, refused, self, rfl⟩
    · have kept := scoreVerdict_ok verdict
      have samePrev := CBlockIndex.lasting_congr same CBlockIndex.pprev fun _ => rfl
      have withinMiddle : scored'.Within blocks :=
        .of_lasting same (scoreVerdict_within listed within verdict)
      have stillUncounted : scored'.mChainTxCount = 0 :=
        (CBlockIndex.lasting_congr same CBlockIndex.mChainTxCount fun _ => rfl).trans
          (kept.2.trans uncounted)
      obtain ⟨onlyStored, stored, isStored, sameStored⟩ := receivedBlockTransactions_verdict
        block (only.agree outside agree) outside self withinMiddle stillUncounted
        (only.noneWaits (noWaiting (by rw [verdict]; rfl)))
      rw [isScore, verdict, ← kept.1, ← samePrev]
      refine ⟨only.trans (onlyStored.trans updateTips_onlyAt), stored, ?_, ?_⟩
      · rwa [updateTips_blockIndex]
      · rw [sameStored]
        refine agree.self.storedEntry_eq same ?_
        rw [kept.1]
        exact within.prev_mem
  · intro _
    dsimp only
    split
    · exact ⟨.refl _, _, found, rfl⟩
    · exact ⟨.modify rfl rfl fun _ mem => mem, _,
        BlockMap.lookup_modify_self.trans (congrArg (Option.map _) found), rfl⟩

def settledEntry (env : ChainEnv) (index : BlockMap) (block : CBlock) (pindex : CBlockIndex) :
    CBlockIndex :=
  if pindex.nStatus.failed || pindex.nStatus.haveData then pindex
  else bodyVerdict env index block pindex

end Body

/-- **A block follows its verdicts.** -/
theorem acceptBlock_verdict (agree : AgreeOn blocks index chainman.blockIndex)
    (unchecked : AgreeOn.NoCheckpoint env index)
    (unchecked' : AgreeOn.NoCheckpoint env chainman.blockIndex)
    (unmarked : ∀ failed ∈ chainman.failedBlocks, failed ∉ blocks) {block : CBlock} {input : BodyInput}
    (listed : ∀ parent ∈ listedParents block.toCBlockHeader, parent ∈ blocks)
    (outside : env.hashOf block.toCBlockHeader ∉ blocks)
    (notGenesis : env.hashOf block.toCBlockHeader ≠ env.hashGenesisBlock)
    (early : (block.nTime.toNat : Int) ≤ input.now + maxFutureBlockTime)
    (minPowChecked : input.minPowChecked = true) (requested : input.fRequested = true)
    (own : ∀ pindex, chainman.blockIndex.lookup (env.hashOf block.toCBlockHeader) = some pindex →
      pindex.Within blocks ∧ (pindex.nStatus.haveData = false → pindex.mChainTxCount = 0))
    (noWaiting : ∀ pindex, (chainman.blockIndex.lookup (env.hashOf block.toCBlockHeader)).or
        (headerVerdict env index block.toCBlockHeader) = some pindex →
      pindex.nStatus.failed = false → pindex.nStatus.haveData = false →
      (bodyVerdict env index block pindex).nStatus.haveData = true →
      ∀ pair ∈ chainman.blocksUnlinked, pair.1 ≠ env.hashOf block.toCBlockHeader) :
    OnlyAt blocks (env.hashOf block.toCBlockHeader) chainman (chainman.acceptBlock env input block).1 ∧
      ((chainman.acceptBlock env input block).1.blockIndex.lookup
          (env.hashOf block.toCBlockHeader)).map CBlockIndex.lasting
        = ((chainman.blockIndex.lookup (env.hashOf block.toCBlockHeader)).or
            (headerVerdict env index block.toCBlockHeader)).map
            fun pindex => (settledEntry env index block pindex).lasting := by
  obtain ⟨accepted, result, isAccepted, only, self, refused | ⟨rfl, pindex, found, sound⟩⟩ :=
    acceptBlockHeader_verdict agree unchecked unchecked' unmarked listed outside notGenesis early
  · obtain ⟨invalid, rfl, failed⟩ := refused
    rw [acceptBlock, minPowChecked, isAccepted, ← self]
    refine ⟨only, ?_⟩
    cases isEntry : accepted.blockIndex.lookup (env.hashOf block.toCBlockHeader) with
    | none => rfl
    | some pindex =>
      rw [isEntry, Option.all_some] at failed
      rw [Option.map_some, Option.map_some, settledEntry, failed, Bool.true_or, if_pos rfl]
  · -- the entry is the one that was there or a new one
    have entryOk : pindex.Within blocks ∧
        (pindex.nStatus.haveData = false → pindex.mChainTxCount = 0) := by
      rw [found] at self
      rcases Option.or_eq_some_iff.mp self.symm with old | ⟨_, new⟩
      all_goals grind [headerVerdict, Option.some.inj, newEntry_within, newEntry_fresh]
    rw [acceptBlock, minPowChecked, isAccepted, ← self]
    dsimp only
    rw [found, Option.map_some, settledEntry, sound, Bool.false_or]
    cases stored : pindex.nStatus.haveData with
    | true =>
      have skipped : skipsBody env accepted.blockIndex input pindex = true := by
        rw [skipsBody, stored, Bool.true_or]
      grind [acceptBody]
    | false =>
      have noneWaits : (bodyVerdict env index block pindex).nStatus.haveData = true →
          ∀ pair ∈ accepted.blocksUnlinked, pair.1 ≠ env.hashOf block.toCBlockHeader := by
        intro isStored
        apply only.noneWaits
        exact noWaiting pindex (self.symm.trans found) sound stored isStored
      obtain ⟨onlyBody, later, isLater, same⟩ := acceptBody_verdict env
        (only.agree outside agree) outside
        (fun parent mem => listed parent (List.mem_cons_of_mem _ mem)) found entryOk.1 stored
        (entryOk.2 stored) noneWaits requested
      refine ⟨only.trans onlyBody, ?_⟩
      rw [isLater, Option.map_some, same, if_neg Bool.false_ne_true]

/-! ## The genesis block again -/

theorem acceptBlockHeader_genesis {block : CBlockHeader}
    (isGenesis : env.hashOf block = env.hashGenesisBlock)
    (known : (chainman.blockIndex.lookup (env.hashOf block)).isSome) (now : Int) :
    chainman.acceptBlockHeader env now true block = (chainman, .ok (env.hashOf block)) := by
  rw [acceptBlockHeader, if_pos isGenesis, if_pos rfl, addToBlockIndex_of_known known]

theorem acceptBlock_genesis {block : CBlock} {input : BodyInput} {pindex : CBlockIndex}
    (isGenesis : env.hashOf block.toCBlockHeader = env.hashGenesisBlock)
    (found : chainman.blockIndex.lookup (env.hashOf block.toCBlockHeader) = some pindex)
    (stored : pindex.nStatus.haveData = true) (minPowChecked : input.minPowChecked = true) :
    (chainman.acceptBlock env input block).1 = chainman := by
  have skipped : skipsBody env chainman.blockIndex input pindex = true := by
    rw [skipsBody, stored, Bool.true_or]
  rw [acceptBlock, minPowChecked,
    acceptBlockHeader_genesis isGenesis (Option.isSome_of_mem found)]
  dsimp only
  rw [found]
  dsimp only
  rw [acceptBody, if_pos skipped]

end Arrival

end QuantBTC.Node
