/-
# Node.BlockTree -- the block index on disk

`CDiskBlockIndex`, `WriteBlockIndexDB`, `LoadBlockIndexGuts` and `LoadBlockIndex`.  A record
holds the header of an entry, its height, status and number of transactions, and, when the
version has the DAG bit, `hashParentsRoot` and the extra parents.  `dagData` is not written,
and nothing in the load path computes it.

File positions, `nTimeMax` and the skip list are left out.  The database is iterated in the
order of its keys; what is loaded does not depend on the order.
-/
import QuantBTC.Node.Body

namespace QuantBTC.Node

set_option autoImplicit false

open Primitives Dag

/-! ## Records -/

@[ext]
structure CDiskBlockIndex where
  nHeight : Nat
  nStatus : BlockStatus
  nTx : UInt32
  nVersion : Int32
  hashPrev : Uint256
  hashMerkleRoot : Uint256
  nTime : UInt32
  nBits : UInt32
  nNonce : UInt32
  hashParentsRoot : Uint256
  hashDagParents : List Uint256
deriving DecidableEq, Repr

namespace CDiskBlockIndex

def ofIndex (pindex : CBlockIndex) : CDiskBlockIndex where
  nHeight := pindex.nHeight
  nStatus := pindex.nStatus
  nTx := pindex.nTx
  nVersion := pindex.nVersion
  hashPrev := pindex.pprev.getD 0
  hashMerkleRoot := pindex.hashMerkleRoot
  nTime := pindex.nTime
  nBits := pindex.nBits
  nNonce := pindex.nNonce
  hashParentsRoot := pindex.hashParentsRoot
  hashDagParents := pindex.vDagParents

def readBack (diskindex : CDiskBlockIndex) : CDiskBlockIndex :=
  if diskindex.nVersion &&& blockVersionDagmode != 0 then diskindex
  else { diskindex with hashParentsRoot := 0, hashDagParents := [] }

def constructBlockHash (hash256 : Bytes → Uint256) (diskindex : CDiskBlockIndex) : Uint256 :=
  CBlockHeader.getHash hash256
    { nVersion := diskindex.nVersion
      hashPrevBlock := diskindex.hashPrev
      hashMerkleRoot := diskindex.hashMerkleRoot
      nTime := diskindex.nTime
      nBits := diskindex.nBits
      hashParentsRoot := diskindex.hashParentsRoot
      nNonce := diskindex.nNonce }

def pointerTo (hash : Uint256) : Option Uint256 := if hash = 0 then none else some hash

def assign (diskindex : CDiskBlockIndex) (pindexNew : CBlockIndex) : CBlockIndex :=
  { pindexNew with
    pprev := pointerTo diskindex.hashPrev
    nHeight := diskindex.nHeight
    nVersion := diskindex.nVersion
    hashMerkleRoot := diskindex.hashMerkleRoot
    nTime := diskindex.nTime
    nBits := diskindex.nBits
    nNonce := diskindex.nNonce
    hashParentsRoot := diskindex.hashParentsRoot
    nStatus := diskindex.nStatus
    nTx := diskindex.nTx
    vDagParents := pindexNew.vDagParents ++ diskindex.hashDagParents.filterMap pointerTo }

def loadedEntry (diskindex : CDiskBlockIndex) : CBlockIndex := diskindex.assign {}

end CDiskBlockIndex

abbrev BlockTreeDB := AList fun _ : Uint256 => CDiskBlockIndex

def BlockTreeDB.restored (db : BlockTreeDB) (hash : Uint256) : Option CBlockIndex :=
  (db.lookup hash).map CDiskBlockIndex.loadedEntry

/-! ## Writing -/

def writeRecords (index : BlockMap) (dirty : List Uint256) (db : BlockTreeDB) : BlockTreeDB :=
  dirty.foldl
    (fun db hash =>
      match index.lookup hash with
      | none => db
      | some pindex => db.insert hash (CDiskBlockIndex.ofIndex pindex).readBack)
    db

def ChainstateManager.writeBlockIndexDB (chainman : ChainstateManager) (db : BlockTreeDB) :
    ChainstateManager × BlockTreeDB :=
  ({ chainman with dirtyBlockindex := [] },
    writeRecords chainman.blockIndex chainman.dirtyBlockindex db)

theorem lookup_writeRecords (index : BlockMap) (dirty : List Uint256) (db : BlockTreeDB)
    (hash : Uint256) :
    (writeRecords index dirty db).lookup hash =
      if hash ∈ dirty then
        ((index.lookup hash).map fun pindex => (CDiskBlockIndex.ofIndex pindex).readBack).or
          (db.lookup hash)
      else db.lookup hash := by
  induction dirty generalizing db with
  | nil => rfl
  | cons first rest ih =>
    rw [writeRecords, List.foldl_cons, ← writeRecords, ih]
    cases found : index.lookup first with
    | none =>
      by_cases same : hash = first
      · subst same
        simp [found]
      · simp [same]
    | some pindex =>
      by_cases same : hash = first
      · subst same
        simp [found]
      · simp [same, AList.lookup_insert_ne same]

/-! ## Loading -/

def BlockMap.insertBlockIndex (index : BlockMap) (hash : Uint256) : BlockMap :=
  if hash = 0 ∨ (index.lookup hash).isSome then index else index.insert hash {}

theorem BlockMap.lookup_insertBlockIndex (index : BlockMap) (hash other : Uint256) :
    (index.insertBlockIndex hash).lookup other =
      if other = hash ∧ other ≠ 0 then some ((index.lookup other).getD {})
      else index.lookup other := by
  unfold insertBlockIndex
  by_cases same : other = hash
  · subst same
    by_cases null : other = 0
    · simp [null]
    · cases found : index.lookup other with
      | none => simp [null]
      | some pindex => simp [null, found]
  · split
    · simp [same]
    · simp [same, AList.lookup_insert_ne same]

theorem BlockMap.lookup_insertAll (hashes : List Uint256) (index : BlockMap) (other : Uint256) :
    (hashes.foldl insertBlockIndex index).lookup other =
      if other ∈ hashes ∧ other ≠ 0 then some ((index.lookup other).getD {})
      else index.lookup other := by
  induction hashes generalizing index with
  | nil => simp
  | cons first rest ih =>
    rw [List.foldl_cons, ih, lookup_insertBlockIndex]
    by_cases null : other = 0
    · simp [null]
    · by_cases same : other = first
      · subst same
        simp [null]
      · simp [same, null]

section Load

variable (env : ChainEnv)

def passesLoad (diskindex : CDiskBlockIndex) : Bool :=
  env.params.fPowAllowMinDifficultyBlocks ||
    Pow.checkProofOfWork (uintToArith256 (diskindex.constructBlockHash env.hash256))
      diskindex.nBits env.params

def loadRecord (index : BlockMap) (diskindex : CDiskBlockIndex) : Option BlockMap :=
  let hash := diskindex.constructBlockHash env.hash256
  let inserted := (hash :: diskindex.hashPrev :: diskindex.hashDagParents).foldl
    BlockMap.insertBlockIndex index
  if passesLoad env diskindex then some (inserted.modify hash diskindex.assign) else none

def loadRecords : List CDiskBlockIndex → BlockMap → Option BlockMap
  | [], index => some index
  | diskindex :: rest, index => (loadRecord env index diskindex).bind (loadRecords rest)

def loadBlockIndexGuts (db : BlockTreeDB) : Option BlockMap :=
  loadRecords env (db.entries.map Sigma.snd) ∅

end Load

/-! ## Consistent entries -/

structure EntryOk (env : ChainEnv) (entries : Uint256 → Option CBlockIndex) (hash : Uint256)
    (pindex : CBlockIndex) : Prop where
  named : env.hashOf pindex.getBlockHeader = hash
  prev : (pindex.pprev = none ∧ pindex.nHeight = 0) ∨
    ∃ hashPrev prev, pindex.pprev = some hashPrev ∧ entries hashPrev = some prev ∧
      pindex.nHeight = prev.nHeight + 1
  parents : ∀ parent ∈ pindex.vDagParents, (entries parent).isSome
  pow : hash ≠ env.hashGenesisBlock →
    Pow.checkProofOfWork (uintToArith256 hash) pindex.nBits env.params = true

def Consistent (env : ChainEnv) (entries : Uint256 → Option CBlockIndex) : Prop :=
  ∀ hash pindex, entries hash = some pindex → EntryOk env entries hash pindex

section Spec

variable {env : ChainEnv} {db : BlockTreeDB}

theorem Consistent.ne_zero {entries : Uint256 → Option CBlockIndex}
    (consistent : Consistent env entries) {hash : Uint256} {pindex : CBlockIndex}
    (found : entries hash = some pindex) : hash ≠ 0 := by
  rw [← (consistent hash pindex found).named]
  exact env.hash_ne_zero _

theorem pointerTo_getD (hash : Uint256) : (CDiskBlockIndex.pointerTo hash).getD 0 = hash := by
  unfold CDiskBlockIndex.pointerTo
  split
  next null => exact null.symm
  · rfl

theorem constructBlockHash_eq (diskindex : CDiskBlockIndex) :
    diskindex.constructBlockHash env.hash256 = env.hashOf diskindex.loadedEntry.getBlockHeader := by
  have sameHeader : diskindex.loadedEntry.getBlockHeader =
      { nVersion := diskindex.nVersion
        hashPrevBlock := diskindex.hashPrev
        hashMerkleRoot := diskindex.hashMerkleRoot
        nTime := diskindex.nTime
        nBits := diskindex.nBits
        hashParentsRoot := diskindex.hashParentsRoot
        nNonce := diskindex.nNonce
        hashParents := diskindex.loadedEntry.vDagParents } := by
    rw [CBlockIndex.getBlockHeader]
    congr 1
    exact pointerTo_getD _
  rw [sameHeader]
  rfl

variable {diskindex : CDiskBlockIndex}

theorem Consistent.constructBlockHash (consistent : Consistent env db.restored) {hash : Uint256}
    (found : db.lookup hash = some diskindex) :
    diskindex.constructBlockHash env.hash256 = hash := by
  rw [constructBlockHash_eq]
  exact (consistent hash _ (by rw [BlockTreeDB.restored, found]; rfl)).named

theorem Consistent.refers (consistent : Consistent env db.restored) {hash other : Uint256}
    (found : db.lookup hash = some diskindex)
    (refers : other ∈ diskindex.hashPrev :: diskindex.hashDagParents) (notNull : other ≠ 0) :
    ∃ pindex, db.restored other = some pindex := by
  have entryOk := consistent hash diskindex.loadedEntry (by rw [BlockTreeDB.restored, found]; rfl)
  have pointer : CDiskBlockIndex.pointerTo other = some other := if_neg notNull
  rcases List.mem_cons.mp refers with rfl | parent
  · rcases entryOk.prev with ⟨noPrev, _⟩ | ⟨hashPrev, prev, isPrev, foundPrev, _⟩
    · cases pointer.symm.trans noPrev
    · cases pointer.symm.trans isPrev
      exact ⟨prev, foundPrev⟩
  · refine Option.isSome_iff_exists.mp (entryOk.parents other ?_)
    exact List.mem_filterMap.mpr ⟨other, parent, pointer⟩

theorem lookup_loadRecord (index : BlockMap) (passes : passesLoad env diskindex) :
    ∃ later, loadRecord env index diskindex = some later ∧
      ∀ hash, later.lookup hash =
        if hash = diskindex.constructBlockHash env.hash256 then
          some (diskindex.assign ((index.lookup hash).getD {}))
        else if hash ∈ diskindex.hashPrev :: diskindex.hashDagParents ∧ hash ≠ 0 then
          some ((index.lookup hash).getD {})
        else index.lookup hash := by
  refine ⟨_, if_pos passes, fun hash => ?_⟩
  by_cases same : hash = diskindex.constructBlockHash env.hash256
  · have notNull : hash ≠ 0 := same ▸ env.hash_ne_zero _
    rw [if_pos same, same, BlockMap.lookup_modify_self, BlockMap.lookup_insertAll, ← same,
      if_pos ⟨List.mem_cons_self .., notNull⟩, Option.map_some]
  · grind [BlockMap.lookup_modify_of_ne, BlockMap.lookup_insertAll, List.mem_cons]

theorem loadRecords_spec (consistent : Consistent env db.restored) (todo : List CDiskBlockIndex)
    (index : BlockMap)
    (nodup : (todo.map (·.constructBlockHash env.hash256)).Nodup)
    (inDb : ∀ diskindex ∈ todo,
      db.lookup (diskindex.constructBlockHash env.hash256) = some diskindex)
    (passes : ∀ diskindex ∈ todo, passesLoad env diskindex)
    (pending : ∀ diskindex ∈ todo,
      (index.lookup (diskindex.constructBlockHash env.hash256)).getD {} = {})
    (done : ∀ hash, hash ∉ todo.map (·.constructBlockHash env.hash256) →
      index.lookup hash = db.restored hash) :
    ∃ later, loadRecords env todo index = some later ∧
      ∀ hash, later.lookup hash = db.restored hash := by
  induction todo generalizing index with
  | nil => exact ⟨index, rfl, fun hash => done hash List.not_mem_nil⟩
  | cons diskindex rest ih =>
      rw [List.map_cons, List.nodup_cons] at nodup
      rw [List.forall_mem_cons] at inDb passes pending
      obtain ⟨next, loaded, lookups⟩ := lookup_loadRecord index passes.1
      have unfolded : loadRecords env (diskindex :: rest) index = loadRecords env rest next := by
        rw [loadRecords, loaded]
        rfl
      rw [unfolded]
      refine ih next nodup.2 inDb.2 passes.2 (fun other mem => ?_) fun hash notIn => ?_
      · have ne : other.constructBlockHash env.hash256 ≠ diskindex.constructBlockHash env.hash256 :=
          fun same => nodup.1 (same ▸ List.mem_map_of_mem mem)
        rw [lookups, if_neg ne]
        split
        · exact pending.2 other mem
        · exact pending.2 other mem
      · rw [lookups]
        split
        · next same =>
            subst same
            rw [pending.1, BlockTreeDB.restored, inDb.1]
            rfl
        · next ne =>
            rw [done hash (by rw [List.map_cons, List.mem_cons]; exact not_or.mpr ⟨ne, notIn⟩)]
            split
            · next refers =>
                obtain ⟨pindex, found⟩ := consistent.refers inDb.1 refers.1 refers.2
                rw [found]
                rfl
            · rfl

theorem mem_records :
    diskindex ∈ db.entries.map Sigma.snd ↔ ∃ hash, db.lookup hash = some diskindex := by
  rw [List.mem_map]
  constructor
  · rintro ⟨⟨hash, _⟩, mem, rfl⟩
    exact ⟨hash, AList.mem_lookup_iff.mpr mem⟩
  · rintro ⟨hash, found⟩
    exact ⟨⟨hash, diskindex⟩, AList.mem_lookup_iff.mp found, rfl⟩

theorem loadBlockIndexGuts_spec (consistent : Consistent env db.restored)
    (passes : ∀ hash diskindex, db.lookup hash = some diskindex → passesLoad env diskindex) :
    ∃ index, loadBlockIndexGuts env db = some index ∧
      ∀ hash, index.lookup hash = db.restored hash := by
  have names : (db.entries.map Sigma.snd).map (·.constructBlockHash env.hash256) = db.keys := by
    rw [List.map_map]
    refine List.map_congr_left fun entry mem => ?_
    exact consistent.constructBlockHash (AList.mem_lookup_iff.mpr mem)
  refine loadRecords_spec consistent _ ∅ (names ▸ db.keys_nodup) ?_ ?_ (fun _ _ => rfl) ?_
  · intro diskindex mem
    obtain ⟨hash, found⟩ := mem_records.mp mem
    rwa [consistent.constructBlockHash found]
  · intro diskindex mem
    obtain ⟨hash, found⟩ := mem_records.mp mem
    exact passes hash diskindex found
  · intro hash notIn
    rw [names] at notIn
    rw [BlockTreeDB.restored, AList.lookup_eq_none.mpr notIn]
    rfl

theorem passesLoad_of_loaded {todo : List CDiskBlockIndex} {index later : BlockMap}
    (loaded : loadRecords env todo index = some later) :
    ∀ diskindex ∈ todo, passesLoad env diskindex := by
  induction todo generalizing index with
  | nil => exact nofun
  | cons diskindex rest ih =>
    obtain ⟨next, first, others⟩ := Option.bind_eq_some_iff.mp loaded
    grind [loadRecord]

end Spec

/-! ## Linking -/

namespace ChainstateManager

def linkedTxCount (prev : Option CBlockIndex) (pindex : CBlockIndex) : UInt64 :=
  if pindex.nTx = 0 then pindex.mChainTxCount
  else
    match prev with
    | none => pindex.nTx.toUInt64
    | some prev => if prev.mChainTxCount > 0 then prev.mChainTxCount + pindex.nTx.toUInt64 else 0

def linked (prev : Option CBlockIndex) (pindex : CBlockIndex) : CBlockIndex :=
  { pindex with
    nChainWork := Pow.add256 (prev.elim 0 CBlockIndex.nChainWork) (Pow.getBlockProof pindex.nBits)
    mChainTxCount := linkedTxCount prev pindex }

def linkEntry (chainman : ChainstateManager) (hash : Uint256) : ChainstateManager :=
  match chainman.blockIndex.lookup hash with
  | none => chainman
  | some pindex =>
    let prev := pindex.pprev.bind fun hashPrev => chainman.blockIndex.lookup hashPrev
    let waits : Bool := pindex.nTx != 0 && prev.any (·.mChainTxCount == 0)
    let counted : ChainstateManager :=
      { chainman with
        blockIndex := chainman.blockIndex.modify hash (linked prev)
        blocksUnlinked :=
          if waits then chainman.blocksUnlinked ++ (pindex.pprev.map (·, hash)).toList
          else chainman.blocksUnlinked }
    if !pindex.nStatus.failed && prev.any (·.nStatus.failed) then
      counted.modifyDirty hash CBlockIndex.setFailedChild
    else counted

def heightOf (index : BlockMap) (hash : Uint256) : Nat :=
  (index.lookup hash).elim 0 CBlockIndex.nHeight

def linkSorted : Option Nat → List Uint256 → ChainstateManager → Option ChainstateManager
  | _, [], chainman => some chainman
  | previous, hash :: rest, chainman =>
    let nHeight := heightOf chainman.blockIndex hash
    if previous.any (· + 1 < nHeight) then none
    else linkSorted (some nHeight) rest (chainman.linkEntry hash)

def sortedByHeight (index : BlockMap) : List Uint256 :=
  index.keys.insertionSort fun a b => heightOf index a ≤ heightOf index b

def loadBlockIndex (env : ChainEnv) (db : BlockTreeDB) : Option ChainstateManager :=
  (loadBlockIndexGuts env db).bind fun index =>
    linkSorted none (sortedByHeight index) { blockIndex := index }

def bestLoadedHeader (index : BlockMap) : Option Uint256 :=
  (sortedByHeight index).foldl
    (fun best hash =>
      match index.lookup hash with
      | none => best
      | some pindex =>
        let better := (best.bind fun best => index.lookup best).all
          (·.nChainWork < pindex.nChainWork)
        if pindex.isValid .tree && better then some hash else best)
    none

def start (env : ChainEnv) (db : BlockTreeDB) : Option ChainstateManager :=
  (loadBlockIndex env db).map fun loaded =>
    if (loaded.blockIndex.lookup env.hashGenesisBlock).isSome then
      { loaded with bestHeader := bestLoadedHeader loaded.blockIndex }
    else loadGenesisBlock env

end ChainstateManager

end QuantBTC.Node
