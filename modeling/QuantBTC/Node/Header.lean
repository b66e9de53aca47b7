/-
# Node.Header -- acceptance of headers

`ChainstateManager::AcceptBlockHeader` with the checks it makes and
`BlockManager::AddToBlockIndex`.  A check returns the reason for which it refuses, `none`
when it passes; the debug messages of the source are left out.

What a node is started with is a `ChainEnv`: the chain parameters, the `-dag` argument, the
double SHA-256, and the checks of a body, which the results here hold for whatever they
refuse.
-/
import QuantBTC.Dag.TipSet
import QuantBTC.Node.BlockIndex

namespace QuantBTC.Node

set_option autoImplicit false

open Consensus Primitives Dag

/-! ## Reasons -/

inductive BlockValidationResult where
  | consensus
  | cachedInvalid
  | invalidHeader
  | mutated
  | missingPrev
  | invalidPrev
  | timeFuture
  | checkpoint
  | headerLowWork
deriving DecidableEq, Repr

structure Invalid where
  result : BlockValidationResult
  rejectReason : String
deriving DecidableEq, Repr

def refuseIf (condition : Prop) [Decidable condition] (result : BlockValidationResult)
    (rejectReason : String) : Option Invalid :=
  if condition then some { result, rejectReason } else none

@[simp] theorem refuseIf_eq_none {condition : Prop} [Decidable condition]
    {result : BlockValidationResult} {rejectReason : String} :
    refuseIf condition result rejectReason = none ↔ ¬ condition := by
  simp [refuseIf]

/-! ## State -/

structure ChainEnv where
  params : Params
  /-- `-dag`, when it is given. -/
  dagArg : Option Bool := none
  hash256 : Bytes → Uint256
  genesis : CBlock
  checkpointsEnabled : Bool := true
  /-- `mapCheckpoints`, the highest first. -/
  checkpoints : List Uint256 := []
  checkBlock : CBlock → Option Invalid := fun _ => none
  /-- `ContextualCheckBlock` with the chain of `pindexPrev`. -/
  contextualCheckBlock : CBlock → Option Pow.Chain → Option Invalid := fun _ _ => none
  hash_ne_zero : ∀ header : CBlockHeader, header.getHash hash256 ≠ 0
  genesis_prev : genesis.hashPrevBlock = 0
  genesis_parents : genesis.hashParents = []

namespace ChainEnv

variable (env : ChainEnv)

def dagMode : Bool := env.dagArg.getD env.params.fDagMode

def hashOf (header : CBlockHeader) : Uint256 := header.getHash env.hash256

def hashGenesisBlock : Uint256 := env.hashOf env.genesis.toCBlockHeader

end ChainEnv

structure ChainstateManager where
  blockIndex : BlockMap := ∅
  bestHeader : Option Uint256 := none
  failedBlocks : List Uint256 := []
  dirtyBlockindex : List Uint256 := []
  blocksUnlinked : List (Uint256 × Uint256) := []
  nBlockSequenceId : Int32 := 1
  dagTips : DagTipSet := {}

namespace ChainstateManager

variable (env : ChainEnv)

def modifyDirty (chainman : ChainstateManager) (hash : Uint256)
    (change : CBlockIndex → CBlockIndex) : ChainstateManager :=
  { chainman with
    blockIndex := chainman.blockIndex.modify hash change
    dirtyBlockindex := chainman.dirtyBlockindex.insert hash }

/-! ## The checks -/

def maxTimewarp : Int := 600

def maxFutureBlockTime : Int := 2 * 60 * 60

def hex8 (n : UInt32) : String :=
  let digits := (Nat.toDigits 16 n.toNat)
  String.ofList (List.replicate (8 - digits.length) '0' ++ digits)

def checkBlockHeader (block : CBlockHeader) : Option Invalid :=
  refuseIf (¬ Pow.checkProofOfWork (uintToArith256 (env.hashOf block)) block.nBits env.params)
    .invalidHeader "high-hash"

def getLastCheckpoint (index : BlockMap) : Option CBlockIndex :=
  env.checkpoints.findSome? fun hash => index.lookup hash

def outdatedVersion (block : CBlockHeader) (nHeight : Nat) : Bool :=
  (block.nVersion < 2 && env.params.BIP34Height ≤ nHeight) ||
    (block.nVersion < 3 && env.params.BIP66Height ≤ nHeight) ||
    (block.nVersion < 4 && env.params.BIP65Height ≤ nHeight)

def contextualCheckBlockHeader (index : BlockMap) (now : Int) (block : CBlockHeader)
    (pindexPrev : CBlockIndex) : Option Invalid :=
  let nHeight := pindexPrev.nHeight + 1
  let time : Int := block.nTime.toNat
  refuseIf (Pow.getNextWorkRequired env.dagArg (index.chainOf pindexPrev) time env.params
      ≠ some block.nBits) .invalidHeader "bad-diffbits"
  |>.or (refuseIf (env.checkpointsEnabled ∧
      (getLastCheckpoint env index).any (nHeight < ·.nHeight)) .checkpoint
    "bad-fork-prior-to-checkpoint")
  |>.or (refuseIf (time ≤ index.getMedianTimePast pindexPrev) .invalidHeader "time-too-old")
  |>.or (refuseIf (env.params.enforceBIP94 ∧
      nHeight % env.params.difficultyAdjustmentInterval = 0 ∧
      time < pindexPrev.blockEntry.getBlockTime - maxTimewarp) .invalidHeader
    "time-timewarp-attack")
  |>.or (refuseIf (time > now + maxFutureBlockTime) .timeFuture "time-too-new")
  |>.or (refuseIf (outdatedVersion env block nHeight) .invalidHeader
    ("bad-version(0x" ++ hex8 block.nVersion.toUInt32 ++ ")"))

def checkExtraParents (index : BlockMap) (hashPrevBlock : Uint256) (prevHeight : Nat) :
    List Uint256 → List Uint256 → Option Invalid
  | _, [] => none
  | seen, parent :: rest =>
    if parent = hashPrevBlock ∨ parent ∈ seen then
      some { result := .consensus, rejectReason := "duplicate-dag-parent" }
    else
      match index.lookup parent with
      | none => checkExtraParents index hashPrevBlock prevHeight (parent :: seen) rest
      | some entry =>
        if entry.nStatus.failed then
          some { result := .invalidPrev, rejectReason := "bad-dag-parent" }
        else if entry.nHeight > prevHeight ∧
            index.getAncestor parent prevHeight = some hashPrevBlock then
          some
            { result := .consensus
              rejectReason := "dag-parent-descends-from-selected-parent" }
        else checkExtraParents index hashPrevBlock prevHeight (parent :: seen) rest

def checkDagParents (index : BlockMap) (block : CBlockHeader) (pindexPrev : CBlockIndex) :
    Option Invalid :=
  if block.isDagBlock && env.dagMode then
    refuseIf (block.hashParents.length > env.params.nMaxDagParents) .consensus
      "too-many-dag-parents"
    |>.or (refuseIf (block.hashParentsRoot
        ≠ CBlockHeader.computeParentsRoot env.hash256 block.hashParents) .consensus
      "bad-dag-parents-root")
    |>.or (checkExtraParents index block.hashPrevBlock pindexPrev.nHeight [] block.hashParents)
  else none

def checkNewHeader (index : BlockMap) (now : Int) (block : CBlockHeader) : Option Invalid :=
  (checkBlockHeader env block).or <|
    match index.lookup block.hashPrevBlock with
    | none => some { result := .missingPrev, rejectReason := "prev-blk-not-found" }
    | some pindexPrev =>
      refuseIf pindexPrev.nStatus.failed .invalidPrev "bad-prevblk"
      |>.or (contextualCheckBlockHeader env index now block pindexPrev)
      |>.or (checkDagParents env index block pindexPrev)

/-! ## Failed blocks -/

def failedAncestor (chainman : ChainstateManager) (hashPrev : Uint256) : Option Uint256 :=
  match chainman.blockIndex.lookup hashPrev with
  | none => none
  | some pindexPrev =>
    if pindexPrev.isValid .scripts then none
    else chainman.failedBlocks.find? fun failed =>
      match chainman.blockIndex.lookup failed with
      | none => false
      | some entry => chainman.blockIndex.getAncestor hashPrev entry.nHeight = some failed

def markFailedChild (failed : Uint256) :
    Nat → Uint256 → ChainstateManager → ChainstateManager
  | 0, _, chainman => chainman
  | steps + 1, walk, chainman =>
    if walk = failed then chainman
    else
      match chainman.blockIndex.lookup walk with
      | none => chainman
      | some entry =>
        let marked := chainman.modifyDirty walk CBlockIndex.setFailedChild
        match entry.pprev with
        | none => marked
        | some prev => markFailedChild failed steps prev marked

/-! ## The index -/

def newEntry (index : BlockMap) (block : CBlockHeader) : CBlockIndex :=
  let prev := index.lookup block.hashPrevBlock
  let entry : CBlockIndex :=
    { CBlockIndex.ofHeader block with
      pprev := prev.map fun _ => block.hashPrevBlock
      nHeight := prev.elim 0 fun pprev => pprev.nHeight + 1
      nChainWork := Pow.add256 (prev.elim 0 CBlockIndex.nChainWork) (Pow.getBlockProof block.nBits)
      vDagParents :=
        if block.isDagBlock then block.hashParents.filter fun parent => (index.lookup parent).isSome
        else [] }
  entry.raiseValidity .tree

def addToBlockIndex (chainman : ChainstateManager) (block : CBlockHeader) : ChainstateManager :=
  let hash := env.hashOf block
  if (chainman.blockIndex.lookup hash).isSome then chainman
  else
    let index := chainman.blockIndex.insert hash (CBlockIndex.ofHeader block)
    let pindexNew := newEntry index block
    { chainman with
      blockIndex := index.insert hash pindexNew
      bestHeader :=
        match chainman.bestHeader.bind fun best => chainman.blockIndex.lookup best with
        | none => some hash
        | some best => if best.nChainWork < pindexNew.nChainWork then some hash else chainman.bestHeader
      dirtyBlockindex := chainman.dirtyBlockindex.insert hash }

def acceptBlockHeader (chainman : ChainstateManager) (now : Int) (minPowChecked : Bool)
    (block : CBlockHeader) : ChainstateManager × Except Invalid Uint256 :=
  let hash := env.hashOf block
  let finish : ChainstateManager × Except Invalid Uint256 :=
    if minPowChecked then (chainman.addToBlockIndex env block, .ok hash)
    else (chainman, .error { result := .headerLowWork, rejectReason := "too-little-chainwork" })
  if hash = env.hashGenesisBlock then finish
  else
    match chainman.blockIndex.lookup hash with
    | some pindex =>
      if pindex.nStatus.failed then
        (chainman, .error { result := .cachedInvalid, rejectReason := "duplicate" })
      else (chainman, .ok hash)
    | none =>
      match checkNewHeader env chainman.blockIndex now block with
      | some invalid => (chainman, .error invalid)
      | none =>
        match chainman.failedAncestor block.hashPrevBlock with
        | some failed =>
          (markFailedChild failed chainman.blockIndex.entries.length block.hashPrevBlock
              chainman,
            .error { result := .invalidPrev, rejectReason := "bad-prevblk" })
        | none => finish

/-! ## What a header does -/

variable {env} {chainman : ChainstateManager} {block : CBlockHeader}

theorem markFailedChild_sameCores (failed : Uint256) (steps : Nat) (walk : Uint256)
    (chainman : ChainstateManager) :
    BlockMap.SameCores chainman.blockIndex
      (markFailedChild failed steps walk chainman).blockIndex := by
  induction steps generalizing walk chainman with
  | zero => exact .refl _
  | succ steps ih =>
    unfold markFailedChild
    split
    · exact .refl _
    · split
      · exact .refl _
      · have marked : BlockMap.SameCores chainman.blockIndex
            (chainman.modifyDirty walk CBlockIndex.setFailedChild).blockIndex :=
          .modify fun _ => rfl
        split
        · exact marked
        · exact marked.trans (ih _ _)

theorem addToBlockIndex_of_known (known : (chainman.blockIndex.lookup (env.hashOf block)).isSome) :
    chainman.addToBlockIndex env block = chainman :=
  if_pos known

theorem lookup_addToBlockIndex (unknown : chainman.blockIndex.lookup (env.hashOf block) = none)
    (hash : Uint256) :
    (chainman.addToBlockIndex env block).blockIndex.lookup hash =
      if hash = env.hashOf block then
        some (newEntry (chainman.blockIndex.insert (env.hashOf block) (.ofHeader block)) block)
      else chainman.blockIndex.lookup hash := by
  unfold addToBlockIndex
  rw [if_neg (by rw [unknown]; exact Bool.false_ne_true)]
  grind [AList.lookup_insert, AList.lookup_insert_ne]

theorem acceptBlockHeader_state (now : Int) (minPowChecked : Bool) (block : CBlockHeader)
    (genesis : (chainman.blockIndex.lookup env.hashGenesisBlock).isSome) :
    (chainman.acceptBlockHeader env now minPowChecked block).1 = chainman ∨
      (∃ failed steps, (chainman.acceptBlockHeader env now minPowChecked block).1
        = markFailedChild failed steps block.hashPrevBlock chainman) ∨
      (chainman.acceptBlockHeader env now minPowChecked block).1
          = chainman.addToBlockIndex env block ∧
        chainman.blockIndex.lookup (env.hashOf block) = none ∧
        checkNewHeader env chainman.blockIndex now block = none := by
  grind [acceptBlockHeader, addToBlockIndex_of_known]

theorem acceptBlockHeader_cases (now : Int) (minPowChecked : Bool) (block : CBlockHeader)
    (genesis : (chainman.blockIndex.lookup env.hashGenesisBlock).isSome) :
    BlockMap.SameCores chainman.blockIndex
        (chainman.acceptBlockHeader env now minPowChecked block).1.blockIndex ∨
      (chainman.acceptBlockHeader env now minPowChecked block).1
          = chainman.addToBlockIndex env block ∧
        chainman.blockIndex.lookup (env.hashOf block) = none ∧
        checkNewHeader env chainman.blockIndex now block = none := by
  rcases acceptBlockHeader_state now minPowChecked block genesis with
    same | ⟨failed, steps, marked⟩ | added
  · rw [same]
    exact .inl (.refl _)
  · rw [marked]
    exact .inl (markFailedChild_sameCores _ _ _ _)
  · exact .inr added

theorem acceptBlockHeader_ok {now : Int} {minPowChecked : Bool} {hash : Uint256}
    (accepted : (chainman.acceptBlockHeader env now minPowChecked block).2 = .ok hash) :
    hash = env.hashOf block := by grind [acceptBlockHeader, Except.ok.inj]

def ExtraParentOk (index : BlockMap) (hashPrevBlock : Uint256) (prevHeight : Nat)
    (parent : Uint256) : Prop :=
  ∀ entry, index.lookup parent = some entry → entry.nStatus.failed = false ∧
    ¬ (entry.nHeight > prevHeight ∧ index.getAncestor parent prevHeight = some hashPrevBlock)

variable {index : BlockMap}

theorem checkExtraParents_eq_none_iff {hashPrevBlock : Uint256} {prevHeight : Nat}
    {seen parents : List Uint256} :
    checkExtraParents index hashPrevBlock prevHeight seen parents = none ↔
      parents.Nodup ∧ ∀ parent ∈ parents, parent ∉ hashPrevBlock :: seen ∧
        ExtraParentOk index hashPrevBlock prevHeight parent := by
  induction parents generalizing seen with
  | nil => simp [checkExtraParents]
  | cons parent rest ih =>
    -- what is seen later is not listed again
    have further : (rest.Nodup ∧ ∀ other ∈ rest, other ∉ hashPrevBlock :: parent :: seen ∧
          ExtraParentOk index hashPrevBlock prevHeight other) ↔
        (parent ∉ rest ∧ rest.Nodup) ∧ ∀ other ∈ rest, other ∉ hashPrevBlock :: seen ∧
          ExtraParentOk index hashPrevBlock prevHeight other := by grind
    rw [checkExtraParents, List.nodup_cons, List.forall_mem_cons]
    split
    next repeated => simp [List.mem_cons, repeated]
    next new =>
      rw [← List.mem_cons] at new
      split
      · grind [ExtraParentOk]
      next entry found =>
        split
        next failed => simp [found, failed, ExtraParentOk]
        · grind [ExtraParentOk]

theorem checkNewHeader_pow {now : Int} (passed : checkNewHeader env index now block = none) :
    Pow.checkProofOfWork (uintToArith256 (env.hashOf block)) block.nBits env.params = true := by
  have passedPow := (Option.or_eq_none_iff.mp passed).1
  rwa [checkBlockHeader, refuseIf_eq_none, not_not] at passedPow

theorem checkNewHeader_prev {now : Int} (passed : checkNewHeader env index now block = none) :
    ∃ pindexPrev, index.lookup block.hashPrevBlock = some pindexPrev := by
  grind [checkNewHeader, Option.or_eq_none_iff]

end ChainstateManager

end QuantBTC.Node
