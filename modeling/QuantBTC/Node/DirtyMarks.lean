/-
# Node.DirtyMarks -- what is changed without a dirty mark

Of an entry, the header, the previous block and the height never change.  The functions that
change its status or its number of transactions mark it dirty; `vDagParents`, `dagData` and
what a load computes again are changed without a mark.
-/
import QuantBTC.Node.BlockTree

namespace QuantBTC.Node

set_option autoImplicit false

open Primitives Dag

namespace CBlockIndex

def fixed (pindex : CBlockIndex) : CBlockIndex where
  pprev := pindex.pprev
  nHeight := pindex.nHeight
  nVersion := pindex.nVersion
  hashMerkleRoot := pindex.hashMerkleRoot
  nTime := pindex.nTime
  nBits := pindex.nBits
  hashParentsRoot :=
    if pindex.nVersion &&& blockVersionDagmode != 0 then pindex.hashParentsRoot else 0
  nNonce := pindex.nNonce

def written (pindex : CBlockIndex) : CBlockIndex :=
  { pindex.fixed with nStatus := pindex.nStatus, nTx := pindex.nTx }

variable {p q : CBlockIndex}

theorem fixed_eq_of_written (same : p.written = q.written) : p.fixed = q.fixed := by
  have dropped : ∀ pindex : CBlockIndex,
      pindex.fixed = { pindex.written with nStatus := {}, nTx := 0 } := fun _ => rfl
  rw [dropped p, same, ← dropped q]

theorem pprev_eq_of_fixed (same : p.fixed = q.fixed) : p.pprev = q.pprev := by
  change p.fixed.pprev = q.fixed.pprev
  rw [same]

theorem nHeight_eq_of_fixed (same : p.fixed = q.fixed) : p.nHeight = q.nHeight := by
  change p.fixed.nHeight = q.fixed.nHeight
  rw [same]

theorem nBits_eq_of_fixed (same : p.fixed = q.fixed) : p.nBits = q.nBits := by
  change p.fixed.nBits = q.fixed.nBits
  rw [same]

theorem hashOf_fixed (env : ChainEnv) (pindex : CBlockIndex) :
    env.hashOf pindex.fixed.getBlockHeader = env.hashOf pindex.getBlockHeader := by
  have bytes : pindex.fixed.getBlockHeader.hashedBytes = pindex.getBlockHeader.hashedBytes := by
    by_cases dag : (pindex.nVersion &&& blockVersionDagmode != 0) = true
    · simp only [CBlockHeader.hashedBytes, CBlockHeader.isDagBlock, getBlockHeader, fixed, dag,
        if_true]
    · simp only [CBlockHeader.hashedBytes, CBlockHeader.isDagBlock, getBlockHeader, fixed, dag,
        Bool.false_eq_true, if_false]
  rw [ChainEnv.hashOf, CBlockHeader.getHash, bytes]
  rfl

theorem hashOf_eq_of_fixed (env : ChainEnv) (same : p.fixed = q.fixed) :
    env.hashOf p.getBlockHeader = env.hashOf q.getBlockHeader := by
  rw [← hashOf_fixed env p, same, hashOf_fixed]

variable (pindex : CBlockIndex)

@[simp] theorem fixed_raiseValidity (upTo : BlockValidity) :
    (pindex.raiseValidity upTo).fixed = pindex.fixed :=
  raiseValidity_congr fixed (fun _ _ => rfl) pindex upTo

@[simp] theorem vDagParents_raiseValidity (upTo : BlockValidity) :
    (pindex.raiseValidity upTo).vDagParents = pindex.vDagParents :=
  raiseValidity_congr vDagParents (fun _ _ => rfl) pindex upTo

end CBlockIndex

/-! ## Entries stay consistent -/

section Consistent

variable {env : ChainEnv} {entries later : Uint256 → Option CBlockIndex}

def Grows (entries later : Uint256 → Option CBlockIndex) : Prop :=
  ∀ hash pindex, entries hash = some pindex →
    ∃ pindex', later hash = some pindex' ∧ pindex'.fixed = pindex.fixed

theorem Grows.isSome (grows : Grows entries later) {hash : Uint256}
    (known : (entries hash).isSome) : (later hash).isSome := by
  obtain ⟨pindex, found⟩ := Option.isSome_iff_exists.mp known
  obtain ⟨pindex', found', _⟩ := grows hash pindex found
  rw [found']
  rfl

theorem EntryOk.of_fixed {hash : Uint256} {pindex pindex' : CBlockIndex}
    (entryOk : EntryOk env entries hash pindex) (grows : Grows entries later)
    (same : pindex'.fixed = pindex.fixed)
    (parents : ∀ parent ∈ pindex'.vDagParents, (later parent).isSome) :
    EntryOk env later hash pindex' where
  named := (CBlockIndex.hashOf_eq_of_fixed env same).trans entryOk.named
  prev := by
    rw [CBlockIndex.pprev_eq_of_fixed same, CBlockIndex.nHeight_eq_of_fixed same]
    rcases entryOk.prev with first | ⟨hashPrev, prev, isPrev, found, height⟩
    · exact .inl first
    · obtain ⟨prev', found', samePrev⟩ := grows hashPrev prev found
      grind [CBlockIndex.nHeight_eq_of_fixed]
  parents := parents
  pow other := by
    rw [CBlockIndex.nBits_eq_of_fixed same]
    exact entryOk.pow other

end Consistent

/-! ## The relation -/

abbrev BlockMap.find (index : BlockMap) (hash : Uint256) : Option CBlockIndex := index.lookup hash

structure Keeps (env : ChainEnv) (chainman later : ChainstateManager) : Prop where
  dirty : chainman.dirtyBlockindex ⊆ later.dirtyBlockindex
  clean : ∀ hash, hash ∉ later.dirtyBlockindex →
    (later.blockIndex.find hash).map CBlockIndex.written
      = (chainman.blockIndex.find hash).map CBlockIndex.written
  grows : Grows chainman.blockIndex.find later.blockIndex.find
  consistent : Consistent env chainman.blockIndex.find → Consistent env later.blockIndex.find

namespace Keeps

variable {env : ChainEnv} {chainman middle later : ChainstateManager}

theorem of_eq (index : later.blockIndex = chainman.blockIndex)
    (dirty : later.dirtyBlockindex = chainman.dirtyBlockindex) : Keeps env chainman later where
  dirty := dirty ▸ List.Subset.refl _
  clean _ _ := by rw [index]
  grows hash pindex found := ⟨pindex, index ▸ found, rfl⟩
  consistent := by rw [index]; exact id

theorem refl (env : ChainEnv) (chainman : ChainstateManager) : Keeps env chainman chainman :=
  of_eq rfl rfl

theorem trans (first : Keeps env chainman middle) (second : Keeps env middle later) :
    Keeps env chainman later where
  dirty := List.Subset.trans first.dirty second.dirty
  clean hash unmarked := (second.clean hash unmarked).trans
    (first.clean hash fun mem => unmarked (second.dirty mem))
  grows hash pindex found := by
    obtain ⟨pindex', found', same⟩ := first.grows hash pindex found
    obtain ⟨pindex'', found'', same'⟩ := second.grows hash pindex' found'
    exact ⟨pindex'', found'', same'.trans same⟩
  consistent ok := second.consistent (first.consistent ok)

variable {hash : Uint256} {change : CBlockIndex → CBlockIndex}

theorem modify (index : later.blockIndex = chainman.blockIndex.modify hash change)
    (dirty : chainman.dirtyBlockindex ⊆ later.dirtyBlockindex)
    (same : ∀ pindex, (change pindex).fixed = pindex.fixed)
    (clean : hash ∈ later.dirtyBlockindex ∨ ∀ pindex, (change pindex).written = pindex.written)
    (parents : ∀ pindex, chainman.blockIndex.find hash = some pindex →
      ∀ parent ∈ (change pindex).vDagParents,
        parent ∈ pindex.vDagParents ∨ (chainman.blockIndex.find parent).isSome) :
    Keeps env chainman later := by
  have self : later.blockIndex.find hash = (chainman.blockIndex.find hash).map change := by
    rw [BlockMap.find, index, BlockMap.lookup_modify_self]
  have others : ∀ other, other ≠ hash →
      later.blockIndex.find other = chainman.blockIndex.find other := by
    intro other ne
    rw [BlockMap.find, index, BlockMap.lookup_modify_of_ne ne]
  have grows : Grows chainman.blockIndex.find later.blockIndex.find := by
    intro other pindex found
    grind
  refine ⟨dirty, fun other unmarked => ?_, grows, fun ok other pindex found => ?_⟩
  · by_cases eq : other = hash
    · subst eq
      rw [self, Option.map_map]
      exact congrArg (Option.map · _) (funext (clean.resolve_left unmarked))
    · rw [others other eq]
  · by_cases eq : other = hash
    · subst eq
      obtain ⟨old, foundOld, rfl⟩ := Option.map_eq_some_iff.mp (self.symm.trans found)
      have oldOk := ok other old foundOld
      refine oldOk.of_fixed grows (same old) fun parent mem => grows.isSome ?_
      rcases parents old foundOld parent mem with inOld | known
      · exact oldOk.parents parent inOld
      · exact known
    · have oldOk := ok other pindex ((others other eq).symm.trans found)
      exact oldOk.of_fixed grows rfl fun parent mem => grows.isSome (oldOk.parents parent mem)

theorem modifyDirty (same : ∀ pindex, (change pindex).fixed = pindex.fixed)
    (parents : ∀ pindex, (change pindex).vDagParents = pindex.vDagParents) :
    Keeps env chainman (chainman.modifyDirty hash change) :=
  modify rfl (fun _ => List.mem_insert_of_mem) same (.inl (List.mem_insert_self ..))
    fun pindex _ _ mem => .inl (parents pindex ▸ mem)

end Keeps

/-! ## Headers -/

namespace ChainstateManager

variable {env : ChainEnv}

theorem markFailedChild_keeps (failed : Uint256) (steps : Nat) (walk : Uint256)
    (chainman : ChainstateManager) :
    Keeps env chainman (markFailedChild failed steps walk chainman) := by
  induction steps generalizing walk chainman with
  | zero => exact .refl env _
  | succ steps ih =>
    unfold markFailedChild
    split
    · exact .refl env _
    · split
      · exact .refl env _
      · have marked : Keeps env chainman (chainman.modifyDirty walk CBlockIndex.setFailedChild) :=
          .modifyDirty (fun _ => rfl) fun _ => rfl
        split
        · exact marked
        · exact marked.trans (ih _ _)

variable {chainman : ChainstateManager} {block : CBlockHeader}

variable (index : BlockMap)

theorem newEntry_pprev (block : CBlockHeader) :
    (newEntry index block).pprev = (index.lookup block.hashPrevBlock).map fun _ => block.hashPrevBlock :=
  rfl

theorem newEntry_nHeight (block : CBlockHeader) :
    (newEntry index block).nHeight
      = (index.lookup block.hashPrevBlock).elim 0 fun pprev => pprev.nHeight + 1 :=
  rfl

theorem hashOf_newEntry {index : BlockMap}
    (prev : (newEntry index block).pprev.getD 0 = block.hashPrevBlock) :
    env.hashOf (newEntry index block).getBlockHeader = env.hashOf block := by
  have header : (newEntry index block).getBlockHeader =
      { block with
        hashPrevBlock := (newEntry index block).pprev.getD 0
        hashParents := (newEntry index block).vDagParents } := rfl
  rw [header, prev]
  rfl

theorem newEntry_parents_known (block : CBlockHeader) :
    ∀ parent ∈ (newEntry index block).vDagParents, (index.lookup parent).isSome := by
  have parents : (newEntry index block).vDagParents =
      if block.isDagBlock then block.hashParents.filter fun parent => (index.lookup parent).isSome
      else [] := rfl
  simp [parents]

theorem newEntry_ok {later : Uint256 → Option CBlockIndex}
    (unknown : chainman.blockIndex.find (env.hashOf block) = none)
    (prev : (chainman.blockIndex.find block.hashPrevBlock).isSome ∨
      block.hashPrevBlock = 0 ∧ chainman.blockIndex.find 0 = none)
    (pow : env.hashOf block ≠ env.hashGenesisBlock →
      Pow.checkProofOfWork (uintToArith256 (env.hashOf block)) block.nBits env.params = true)
    (grows : Grows chainman.blockIndex.find later) (added : (later (env.hashOf block)).isSome) :
    EntryOk env later (env.hashOf block)
      (newEntry (chainman.blockIndex.insert (env.hashOf block) (.ofHeader block)) block) := by
  have parents : ∀ parent ∈ (newEntry (chainman.blockIndex.insert (env.hashOf block)
      (.ofHeader block)) block).vDagParents, (later parent).isSome := by
    intro parent mem
    have known := newEntry_parents_known _ block parent mem
    by_cases same : parent = env.hashOf block
    · exact same ▸ added
    · rw [AList.lookup_insert_ne same] at known
      exact grows.isSome known
  rcases prev with known | ⟨null, noPrev⟩
  · obtain ⟨prev, found⟩ := Option.isSome_iff_exists.mp known
    have other : block.hashPrevBlock ≠ env.hashOf block := by
      intro same
      simp [same, unknown] at found
    have inserted : (chainman.blockIndex.insert (env.hashOf block) (.ofHeader block)).lookup
        block.hashPrevBlock = some prev :=
      (AList.lookup_insert_ne other).trans found
    obtain ⟨prev', found', same⟩ := grows _ prev found
    refine ⟨hashOf_newEntry ?_, .inr ⟨block.hashPrevBlock, prev', ?_, found', ?_⟩, parents, pow⟩
    · rw [newEntry_pprev, inserted]
      rfl
    · rw [newEntry_pprev, inserted]
      rfl
    · rw [newEntry_nHeight, inserted, CBlockIndex.nHeight_eq_of_fixed same]
      rfl
  · have inserted : (chainman.blockIndex.insert (env.hashOf block) (.ofHeader block)).lookup
        block.hashPrevBlock = none := by
      rw [null]
      exact (AList.lookup_insert_ne (env.hash_ne_zero _).symm).trans noPrev
    refine ⟨hashOf_newEntry ?_, .inl ⟨?_, ?_⟩, parents, pow⟩
    all_goals simp [newEntry_pprev, inserted, null, newEntry_nHeight]

theorem addToBlockIndex_keeps (unknown : chainman.blockIndex.find (env.hashOf block) = none)
    (prev : (chainman.blockIndex.find block.hashPrevBlock).isSome ∨
      block.hashPrevBlock = 0 ∧ chainman.blockIndex.find 0 = none)
    (pow : env.hashOf block ≠ env.hashGenesisBlock →
      Pow.checkProofOfWork (uintToArith256 (env.hashOf block)) block.nBits env.params = true) :
    Keeps env chainman (chainman.addToBlockIndex env block) := by
  have dirty : (chainman.addToBlockIndex env block).dirtyBlockindex
      = chainman.dirtyBlockindex.insert (env.hashOf block) := by
    have notSome : ¬ (chainman.blockIndex.lookup (env.hashOf block)).isSome := by
      rw [show chainman.blockIndex.lookup (env.hashOf block) = none from unknown]
      exact Bool.false_ne_true
    rw [addToBlockIndex, if_neg notSome]
  have lookups := lookup_addToBlockIndex unknown
  have others : ∀ hash, hash ≠ env.hashOf block →
      (chainman.addToBlockIndex env block).blockIndex.find hash = chainman.blockIndex.find hash :=
    fun hash ne => (lookups hash).trans (if_neg ne)
  have grows : Grows chainman.blockIndex.find
      (chainman.addToBlockIndex env block).blockIndex.find := by
    intro hash pindex found
    refine ⟨pindex, (others hash ?_).trans found, rfl⟩
    rintro rfl
    rw [unknown] at found
    cases found
  refine ⟨?_, fun hash unmarked => ?_, grows, fun ok hash pindex found => ?_⟩
  · rw [dirty]
    exact fun _ => List.mem_insert_of_mem
  · rw [others hash]
    rintro rfl
    exact unmarked (dirty ▸ List.mem_insert_self ..)
  · by_cases same : hash = env.hashOf block
    · subst same
      have self := (lookups (env.hashOf block)).trans (if_pos rfl)
      obtain rfl := Option.some.inj (self.symm.trans found)
      exact newEntry_ok unknown prev pow grows (by rw [BlockMap.find, self]; rfl)
    · have oldOk := ok hash pindex ((others hash same).symm.trans found)
      exact oldOk.of_fixed grows rfl fun parent mem => grows.isSome (oldOk.parents parent mem)

theorem acceptBlockHeader_keeps (now : Int) (minPowChecked : Bool) (block : CBlockHeader)
    (genesis : (chainman.blockIndex.find env.hashGenesisBlock).isSome) :
    Keeps env chainman (chainman.acceptBlockHeader env now minPowChecked block).1 := by
  rcases acceptBlockHeader_state now minPowChecked block genesis with
    same | ⟨failed, steps, marked⟩ | ⟨added, unknown, passed⟩
  · rw [same]
    exact .refl env _
  · rw [marked]
    exact markFailedChild_keeps _ _ _ _
  · grind [addToBlockIndex_keeps, checkNewHeader_pow, checkNewHeader_prev]

/-! ## Bodies -/

theorem linkDescendants_keeps (fuel : Nat) (queue : List Uint256) (chainman : ChainstateManager) :
    Keeps env chainman (linkDescendants fuel queue chainman) := by
  induction fuel generalizing queue chainman with
  | zero => exact .refl env _
  | succ fuel ih =>
    cases queue with
    | nil => exact .refl env _
    | cons hash queue =>
      refine .trans ?_ (ih _ _)
      exact .modify rfl (List.Subset.refl _) (fun _ => rfl) (.inr fun _ => rfl)
        fun _ _ _ mem => .inl mem

theorem receivedBlockTransactions_keeps (chainman : ChainstateManager) (block : CBlock)
    (hash : Uint256) (pprev : Option Uint256) :
    Keeps env chainman (chainman.receivedBlockTransactions block hash pprev) := by
  have received : Keeps env chainman
      (chainman.modifyDirty hash (receivedEntry chainman.blockIndex block)) :=
    .modifyDirty (fun _ => CBlockIndex.fixed_raiseValidity ..)
      fun _ => CBlockIndex.vDagParents_raiseValidity ..
  unfold receivedBlockTransactions
  dsimp only
  split
  · exact received.trans (linkDescendants_keeps _ _ _)
  · split
    · exact received.trans (linkDescendants_keeps _ _ _)
    · split
      · exact received.trans (.of_eq rfl rfl)
      · exact received

theorem updateTips_keeps (chainman : ChainstateManager) (hash : Uint256) :
    Keeps env chainman (chainman.updateTips env hash) := by
  unfold updateTips
  split
  · exact .refl env _
  · split
    · exact .of_eq rfl rfl
    · exact .refl env _

theorem resolveDagParents_known (parents : List Uint256) :
    ∀ parent ∈ (resolveDagParents index parents).1, (index.find parent).isSome := by
  induction parents with
  | nil => exact nofun
  | cons parent rest ih =>
    unfold resolveDagParents
    grind

theorem resolvedParents_known (block : CBlock) (pindex : CBlockIndex) :
    ∀ parent ∈ (resolvedParents index block pindex).1,
      parent ∈ pindex.vDagParents ∨ (index.find parent).isSome := by
  grind [resolvedParents, resolveDagParents_known]

theorem scoreBlock_keeps (block : CBlock) {hash : Uint256} {pindex : CBlockIndex}
    (found : chainman.blockIndex.find hash = some pindex) :
    Keeps env chainman (scoreBlock env chainman block hash pindex).1 := by
  have resolved : Keeps env chainman { chainman with
      blockIndex := chainman.blockIndex.modify hash
        (CBlockIndex.setParents (resolvedParents chainman.blockIndex block pindex).1) } := by
    refine .modify rfl (List.Subset.refl _) (fun _ => rfl) (.inr fun _ => rfl) ?_
    intro pindex' found' parent mem
    cases found.symm.trans found'
    exact resolvedParents_known _ block pindex parent mem
  rcases scoreBlock_cases env chainman block hash pindex with
    ⟨_, score⟩ | ⟨_, invalid, score⟩ | ⟨_, vDagParents, dagData, all, _, score⟩
  · rw [score]
    exact .refl env _
  · rwa [score]
  · rw [score]
    rw [all] at resolved
    refine resolved.trans ?_
    exact .modify rfl (List.Subset.refl _) (fun _ => rfl) (.inr fun _ => rfl)
      fun _ _ _ mem => .inl mem

theorem acceptBody_keeps (input : BodyInput) (block : CBlock) {hash : Uint256}
    {pindex : CBlockIndex} (found : chainman.blockIndex.find hash = some pindex) :
    Keeps env chainman (chainman.acceptBody env input block hash pindex).1 := by
  have scored : Keeps env chainman _ := scoreBlock_keeps block found
  unfold acceptBody
  split
  · exact .refl env _
  · split
    · split
      · exact .refl env _
      · exact .modifyDirty (fun _ => rfl) fun _ => rfl
    · split
      next state invalid score =>
        rw [score] at scored
        exact scored
      next state score =>
        rw [score] at scored
        exact (scored.trans (receivedBlockTransactions_keeps ..)).trans (updateTips_keeps ..)

end ChainstateManager

theorem arrive_keeps {env : ChainEnv} {chainman : ChainstateManager}
    (genesis : (chainman.blockIndex.find env.hashGenesisBlock).isSome) (arrival : Arrival) :
    Keeps env chainman (arrive env chainman arrival) := by
  cases arrival with
  | header now minPowChecked header =>
    exact ChainstateManager.acceptBlockHeader_keeps now minPowChecked header genesis
  | body input block =>
    have header := ChainstateManager.acceptBlockHeader_keeps input.now input.minPowChecked
      block.toCBlockHeader genesis
    rw [arrive, ChainstateManager.acceptBlock]
    split
    next accepted invalid result =>
      rw [result] at header
      exact header
    next accepted hash result =>
      rw [result] at header
      split
      · exact header
      next pindex found => exact header.trans (ChainstateManager.acceptBody_keeps input block found)

end QuantBTC.Node
