/-
# Node.DiskIndex -- the bytes of a block index record

`SERIALIZE_METHODS(CDiskBlockIndex)` in both directions, with the status as the word it is and
the file positions.  Which positions are in the record depends on the status read before them,
and whether the DAG fields follow the nonce depends on the version.  Reading starts from an
empty record, so a field that is not in the bytes comes back as zero.

`IndexEntry` is a `CBlockIndex` with what holds of every entry of the index: its hash is the one
of its header, height and file number are not negative, and it has no more parents than a vector
may have.
-/
import QuantBTC.Node.BlockTree
import QuantBTC.Primitives.VarInt

namespace QuantBTC.Node.Disk

set_option autoImplicit false

open Primitives
open Theory (Reader)
open Theory.Reader (Reads)

/-! ## Entries and records -/

def blockHaveData : UInt32 := 8

def blockHaveUndo : UInt32 := 16

structure CBlockIndex where
  phashBlock : Option Uint256 := none
  pprev : Option Uint256 := none
  nHeight : Int32 := 0
  nFile : Int32 := 0
  nDataPos : UInt32 := 0
  nUndoPos : UInt32 := 0
  nTx : UInt32 := 0
  nStatus : UInt32 := 0
  nVersion : Int32 := 0
  hashMerkleRoot : Uint256 := 0
  nTime : UInt32 := 0
  nBits : UInt32 := 0
  hashParentsRoot : Uint256 := 0
  nNonce : UInt32 := 0
  vDagParents : List (Option Uint256) := []
deriving DecidableEq, Repr

namespace CBlockIndex

variable (pindex : CBlockIndex)

def haveData : Prop := pindex.nStatus &&& blockHaveData ≠ 0

def haveUndo : Prop := pindex.nStatus &&& blockHaveUndo ≠ 0

def haveFile : Prop := pindex.nStatus &&& (blockHaveData ||| blockHaveUndo) ≠ 0

def dagMode : Prop := pindex.nVersion &&& blockVersionDagmode ≠ 0

instance : Decidable pindex.haveData := inferInstanceAs (Decidable (_ ≠ _))

instance : Decidable pindex.haveUndo := inferInstanceAs (Decidable (_ ≠ _))

instance : Decidable pindex.haveFile := inferInstanceAs (Decidable (_ ≠ _))

instance : Decidable pindex.dagMode := inferInstanceAs (Decidable (_ ≠ _))

theorem haveFile_iff : pindex.haveFile ↔ pindex.haveData ∨ pindex.haveUndo := by
  have union : pindex.nStatus &&& (blockHaveData ||| blockHaveUndo) =
      (pindex.nStatus &&& blockHaveData) ||| (pindex.nStatus &&& blockHaveUndo) := by
    apply UInt32.toBitVec_inj.mp
    simp only [UInt32.toBitVec_and, UInt32.toBitVec_or]
    exact BitVec.and_or_distrib_left
  unfold haveFile haveData haveUndo
  rw [union, ne_eq, UInt32.or_eq_zero_iff, not_and_or]

def getBlockHeader : CBlockHeader where
  nVersion := pindex.nVersion
  hashPrevBlock := pindex.pprev.getD 0
  hashMerkleRoot := pindex.hashMerkleRoot
  nTime := pindex.nTime
  nBits := pindex.nBits
  hashParentsRoot := pindex.hashParentsRoot
  nNonce := pindex.nNonce
  hashParents := pindex.vDagParents.reduceOption

end CBlockIndex

structure IndexEntry (hash256 : Bytes → Uint256) extends CBlockIndex where
  named : phashBlock = some (toCBlockIndex.getBlockHeader.getHash hash256)
  nHeight_nonneg : 0 ≤ nHeight
  nFile_nonneg : 0 ≤ nFile
  parents_le : vDagParents.length ≤ maxSize

structure CDiskBlockIndex extends CBlockIndex where
  hashPrev : Uint256 := 0
  hashDagParents : List Uint256 := []
deriving DecidableEq, Repr

namespace CDiskBlockIndex

def ofIndex (pindex : CBlockIndex) : CDiskBlockIndex where
  toCBlockIndex := pindex
  hashPrev := pindex.pprev.getD 0
  hashDagParents := pindex.vDagParents.reduceOption

def constructBlockHash (hash256 : Bytes → Uint256) (diskindex : CDiskBlockIndex) : Uint256 :=
  CBlockHeader.getHash hash256
    { nVersion := diskindex.nVersion
      hashPrevBlock := diskindex.hashPrev
      hashMerkleRoot := diskindex.hashMerkleRoot
      nTime := diskindex.nTime
      nBits := diskindex.nBits
      hashParentsRoot := diskindex.hashParentsRoot
      nNonce := diskindex.nNonce }

/-! ## The two directions -/

def dummyVersion : Int32 := 259900

def positionBytes (obj : CDiskBlockIndex) : Bytes :=
  writeVarInt dummyVersion.toInt ++ writeVarInt obj.nHeight.toInt ++
    writeVarInt obj.nStatus.toNat ++ writeVarInt obj.nTx.toNat ++
    (if obj.haveFile then writeVarInt obj.nFile.toInt else []) ++
    (if obj.haveData then writeVarInt obj.nDataPos.toNat else []) ++
    (if obj.haveUndo then writeVarInt obj.nUndoPos.toNat else [])

def headerBytes (obj : CDiskBlockIndex) : Bytes :=
  leBytes 4 obj.nVersion.toUInt32.toNat ++ uint256Bytes obj.hashPrev ++
    uint256Bytes obj.hashMerkleRoot ++ leBytes 4 obj.nTime.toNat ++
    leBytes 4 obj.nBits.toNat ++ leBytes 4 obj.nNonce.toNat

def hashesBytes (hashes : List Uint256) : Bytes :=
  writeCompactSize hashes.length ++ hashes.flatMap uint256Bytes

def dagBytes (obj : CDiskBlockIndex) : Bytes :=
  if obj.dagMode then uint256Bytes obj.hashParentsRoot ++ hashesBytes obj.hashDagParents else []

def serialize (obj : CDiskBlockIndex) : Bytes :=
  obj.positionBytes ++ obj.headerBytes ++ obj.dagBytes

def unserializePositions (obj : CDiskBlockIndex) : Unserialize CDiskBlockIndex := do
  let _nVersion ← readVarInt32
  let nHeight ← readVarInt32
  let nStatus ← readVarUInt32
  let nTx ← readVarUInt32
  let nFile ← (if nStatus &&& (blockHaveData ||| blockHaveUndo) ≠ 0 then readVarInt32
    else pure obj.nFile : Unserialize Int32)
  let nDataPos ← (if nStatus &&& blockHaveData ≠ 0 then readVarUInt32
    else pure obj.nDataPos : Unserialize UInt32)
  let nUndoPos ← (if nStatus &&& blockHaveUndo ≠ 0 then readVarUInt32
    else pure obj.nUndoPos : Unserialize UInt32)
  pure { obj with nHeight, nStatus, nTx, nFile, nDataPos, nUndoPos }

def unserializeHeader (obj : CDiskBlockIndex) : Unserialize CDiskBlockIndex := do
  let nVersion ← readInt32
  let hashPrev ← readUint256
  let hashMerkleRoot ← readUint256
  let nTime ← readUInt32
  let nBits ← readUInt32
  let nNonce ← readUInt32
  pure { obj with nVersion, hashPrev, hashMerkleRoot, nTime, nBits, nNonce }

def readHashes : Unserialize (List Uint256) := do
  let size ← readCompactSize
  Reader.many readUint256 size

def unserializeDag (obj : CDiskBlockIndex) : Unserialize CDiskBlockIndex :=
  if obj.dagMode then do
    let hashParentsRoot ← readUint256
    let hashDagParents ← readHashes
    pure { obj with hashParentsRoot, hashDagParents }
  else pure obj

def unserialize (obj : CDiskBlockIndex) : Unserialize CDiskBlockIndex := do
  let positions ← unserializePositions obj
  let header ← unserializeHeader positions
  unserializeDag header

end CDiskBlockIndex

/-! ## Round trip -/

namespace CDiskBlockIndex

variable (obj into : CDiskBlockIndex)

def positionsInto : CDiskBlockIndex :=
  { into with
    nHeight := obj.nHeight
    nStatus := obj.nStatus
    nTx := obj.nTx
    nFile := if obj.haveFile then obj.nFile else into.nFile
    nDataPos := if obj.haveData then obj.nDataPos else into.nDataPos
    nUndoPos := if obj.haveUndo then obj.nUndoPos else into.nUndoPos }

def headerInto : CDiskBlockIndex :=
  { into with
    nVersion := obj.nVersion
    hashPrev := obj.hashPrev
    hashMerkleRoot := obj.hashMerkleRoot
    nTime := obj.nTime
    nBits := obj.nBits
    nNonce := obj.nNonce }

def dagInto : CDiskBlockIndex :=
  { into with
    hashParentsRoot := if obj.dagMode then obj.hashParentsRoot else into.hashParentsRoot
    hashDagParents := if obj.dagMode then obj.hashDagParents else into.hashDagParents }

def readBack : CDiskBlockIndex := obj.dagInto (obj.headerInto (obj.positionsInto {}))

variable {obj}

theorem reads_positions (height : 0 ≤ obj.nHeight) (file : 0 ≤ obj.nFile) :
    Reads (unserializePositions into) obj.positionBytes (obj.positionsInto into) := by
  have dummy : (0 : Int32) ≤ dummyVersion := by decide
  simp only [positionBytes, List.append_assoc]
  refine (reads_varInt32 dummy).bind ?_
  refine (reads_varInt32 height).bind ?_
  refine (reads_varUInt32 obj.nStatus).bind ?_
  refine (reads_varUInt32 obj.nTx).bind ?_
  refine ((reads_varInt32 file).optional into.nFile).bind ?_
  refine ((reads_varUInt32 obj.nDataPos).optional into.nDataPos).bind ?_
  exact ((reads_varUInt32 obj.nUndoPos).optional into.nUndoPos).bind_pure _

theorem reads_header : Reads (unserializeHeader into) obj.headerBytes (obj.headerInto into) := by
  simp only [headerBytes, List.append_assoc]
  refine (reads_int32 obj.nVersion).bind ?_
  refine (reads_uint256 obj.hashPrev).bind ?_
  refine (reads_uint256 obj.hashMerkleRoot).bind ?_
  refine (reads_uint32 obj.nTime).bind ?_
  refine (reads_uint32 obj.nBits).bind ?_
  exact (reads_uint32 obj.nNonce).bind_pure _

theorem reads_hashVector {hashes : List Uint256} (few : hashes.length ≤ maxSize) :
    Reads readHashes (hashesBytes hashes) hashes :=
  (reads_compactSize few).bind (reads_hashes hashes)

theorem reads_dag (few : obj.hashDagParents.length ≤ maxSize)
    (version : into.nVersion = obj.nVersion) :
    Reads (unserializeDag into) obj.dagBytes (obj.dagInto into) := by
  have bit : into.dagMode ↔ obj.dagMode := by rw [CBlockIndex.dagMode, version, CBlockIndex.dagMode]
  by_cases dag : obj.dagMode
  · simp only [unserializeDag, dagBytes, dagInto, if_pos (bit.mpr dag), if_pos dag]
    apply (reads_uint256 obj.hashParentsRoot).bind
    exact (reads_hashVector few).bind_pure _
  · simp only [unserializeDag, dagBytes, dagInto, if_neg (mt bit.mp dag), if_neg dag]
    exact Reads.pure into

/-- **A record reads back**, whatever follows it. -/
theorem reads_record (height : 0 ≤ obj.nHeight) (file : 0 ≤ obj.nFile)
    (few : obj.hashDagParents.length ≤ maxSize) :
    Reads (unserialize {}) obj.serialize obj.readBack := by
  rw [serialize, List.append_assoc]
  apply (reads_positions {} height file).bind
  apply (reads_header _).bind
  exact reads_dag _ few rfl

theorem constructBlockHash_readBack (hash256 : Bytes → Uint256) :
    obj.readBack.constructBlockHash hash256 = obj.constructBlockHash hash256 := by
  refine congrArg hash256 ?_
  by_cases dag : obj.dagMode
  · simp [readBack, dagInto, dag, headerInto]
  · have noBit : obj.nVersion &&& blockVersionDagmode = 0 := not_not.mp dag
    simp [readBack, dagInto, dag, headerInto, CBlockHeader.hashedBytes, CBlockHeader.isDagBlock, noBit]

end CDiskBlockIndex

structure Restores (hash256 : Bytes → Uint256) (pindex : CBlockIndex) (diskindex : CDiskBlockIndex) :
    Prop where
  nHeight : diskindex.nHeight = pindex.nHeight
  nStatus : diskindex.nStatus = pindex.nStatus
  nTx : diskindex.nTx = pindex.nTx
  nFile : pindex.haveData ∨ pindex.haveUndo → diskindex.nFile = pindex.nFile
  nDataPos : pindex.haveData → diskindex.nDataPos = pindex.nDataPos
  nUndoPos : pindex.haveUndo → diskindex.nUndoPos = pindex.nUndoPos
  nVersion : diskindex.nVersion = pindex.nVersion
  hashPrev : diskindex.hashPrev = pindex.pprev.getD 0
  hashMerkleRoot : diskindex.hashMerkleRoot = pindex.hashMerkleRoot
  nTime : diskindex.nTime = pindex.nTime
  nBits : diskindex.nBits = pindex.nBits
  nNonce : diskindex.nNonce = pindex.nNonce
  hashParentsRoot : pindex.dagMode → diskindex.hashParentsRoot = pindex.hashParentsRoot
  hashDagParents : pindex.dagMode → diskindex.hashDagParents = pindex.vDagParents.reduceOption
  hash : some (diskindex.constructBlockHash hash256) = pindex.phashBlock

namespace IndexEntry

variable {hash256 : Bytes → Uint256} (entry : IndexEntry hash256)

def diskIndex : CDiskBlockIndex := .ofIndex entry.toCBlockIndex

theorem reads_diskIndex :
    Reads (CDiskBlockIndex.unserialize {}) entry.diskIndex.serialize entry.diskIndex.readBack := by
  have few : entry.diskIndex.hashDagParents.length ≤ maxSize :=
    le_trans (List.reduceOption_length_le _) entry.parents_le
  exact CDiskBlockIndex.reads_record entry.nHeight_nonneg entry.nFile_nonneg few

theorem constructBlockHash_diskIndex :
    some (entry.diskIndex.constructBlockHash hash256) = entry.phashBlock := by
  rw [entry.named]
  rfl

theorem restores_readBack : Restores hash256 entry.toCBlockIndex entry.diskIndex.readBack := by
  have hash := (congrArg some (CDiskBlockIndex.constructBlockHash_readBack hash256)).trans
    entry.constructBlockHash_diskIndex
  refine ⟨rfl, rfl, rfl, ?_, ?_, ?_, rfl, rfl, rfl, rfl, rfl, rfl, ?_, ?_, hash⟩
  · intro file
    exact if_pos (entry.haveFile_iff.mpr file)
  · intro data
    exact if_pos data
  · intro undo
    exact if_pos undo
  · intro dag
    exact if_pos dag
  · intro dag
    exact if_pos dag

/-- **Round trip of the block index on disk.**  What is written for an entry, followed by
anything, is read back up to its last byte, and restores the entry with its hash. -/
theorem decode_encode_record (rest : Bytes) :
    ∃ diskindex : CDiskBlockIndex,
      CDiskBlockIndex.unserialize {} (entry.diskIndex.serialize ++ rest) = .ok (diskindex, rest) ∧
      Restores hash256 entry.toCBlockIndex diskindex := by
  exact ⟨entry.diskIndex.readBack, entry.reads_diskIndex rest, entry.restores_readBack⟩

def prunedIndex : CBlockIndex where
  nHeight := 70000
  nFile := 2
  nUndoPos := 130
  nTx := 1
  nStatus := blockHaveUndo ||| 5
  nVersion := blockVersionDagmode
  nTime := 3
  hashParentsRoot := 9
  vDagParents := [some 8, none, some 4]

def prunedEntry : IndexEntry digitHash where
  toCBlockIndex :=
    { prunedIndex with phashBlock := some (prunedIndex.getBlockHeader.getHash digitHash) }
  named := rfl
  nHeight_nonneg := by decide
  nFile_nonneg := by decide
  parents_le := by decide

example : prunedEntry.diskIndex.serialize.length = 3 + 3 + 1 + 1 + 1 + 2 + 80 + 32 + 65 := by
  decide +kernel

end IndexEntry

/-! ## The records of the block tree

`Node.BlockTree` keeps the status as its level and flags, and no file positions.  Its `readBack`
is what these bytes give, whatever the parts of an entry are that it leaves out. -/

structure FileParts where
  nFile : Int32
  nDataPos : UInt32
  nUndoPos : UInt32
  haveUndo : Bool
  optWitness : Bool
  nFile_nonneg : 0 ≤ nFile

def statusWord (nStatus : BlockStatus) (haveUndo optWitness : Bool) : UInt32 :=
  UInt32.ofNat nStatus.validity.level |||
    (if nStatus.haveData then blockHaveData else 0) |||
    (if haveUndo then blockHaveUndo else 0) |||
    (if nStatus.failedValid then 32 else 0) |||
    (if nStatus.failedChild then 64 else 0) |||
    (if optWitness then 128 else 0)

def validityOf (word : UInt32) : BlockValidity :=
  match (word &&& 7).toNat with
  | 1 => .reserved
  | 2 => .tree
  | 3 => .transactions
  | 4 => .chain
  | 5 => .scripts
  | _ => .unknown

def statusOf (word : UInt32) : BlockStatus where
  validity := validityOf word
  haveData := word &&& blockHaveData != 0
  failedValid := word &&& 32 != 0
  failedChild := word &&& 64 != 0

theorem statusOf_statusWord (nStatus : BlockStatus) (haveUndo optWitness : Bool) :
    statusOf (statusWord nStatus haveUndo optWitness) = nStatus := by
  obtain ⟨validity, haveData, failedValid, failedChild⟩ := nStatus
  cases validity <;> cases haveData <;> cases failedValid <;> cases failedChild <;>
    cases haveUndo <;> cases optWitness <;> rfl

def CDiskBlockIndex.record (diskindex : CDiskBlockIndex) : Node.CDiskBlockIndex where
  nHeight := diskindex.nHeight.toInt.toNat
  nStatus := statusOf diskindex.nStatus
  nTx := diskindex.nTx
  nVersion := diskindex.nVersion
  hashPrev := diskindex.hashPrev
  hashMerkleRoot := diskindex.hashMerkleRoot
  nTime := diskindex.nTime
  nBits := diskindex.nBits
  nNonce := diskindex.nNonce
  hashParentsRoot := diskindex.hashParentsRoot
  hashDagParents := diskindex.hashDagParents

theorem CDiskBlockIndex.record_readBack (obj : CDiskBlockIndex) :
    obj.readBack.record = obj.record.readBack := by
  by_cases bit : obj.nVersion &&& blockVersionDagmode = 0
  · have noDag : ¬obj.dagMode := not_not.mpr bit
    simp [record, readBack, dagInto, headerInto, positionsInto, noDag, Node.CDiskBlockIndex.readBack,
      bit]
  · have dag : obj.dagMode := bit
    simp [record, readBack, dagInto, headerInto, positionsInto, dag, Node.CDiskBlockIndex.readBack,
      bit]

section BlockTree

variable {env : ChainEnv} {entries : Uint256 → Option Node.CBlockIndex} {hash : Uint256}
variable {pindex : Node.CBlockIndex}

theorem reduceOption_map_some (hashes : List Uint256) :
    (hashes.map some).reduceOption = hashes := by
  induction hashes with
  | nil => rfl
  | cons hash hashes ih =>
    rw [List.map_cons, List.reduceOption_cons_of_some, ih]

def entryOf (entryOk : EntryOk env entries hash pindex) (height : pindex.nHeight < 2 ^ 31)
    (few : pindex.vDagParents.length ≤ maxSize) (parts : FileParts) : IndexEntry env.hash256 where
  phashBlock := some hash
  pprev := pindex.pprev
  nHeight := Int32.ofNat pindex.nHeight
  nFile := parts.nFile
  nDataPos := parts.nDataPos
  nUndoPos := parts.nUndoPos
  nTx := pindex.nTx
  nStatus := statusWord pindex.nStatus parts.haveUndo parts.optWitness
  nVersion := pindex.nVersion
  hashMerkleRoot := pindex.hashMerkleRoot
  nTime := pindex.nTime
  nBits := pindex.nBits
  hashParentsRoot := pindex.hashParentsRoot
  nNonce := pindex.nNonce
  vDagParents := pindex.vDagParents.map some
  named := by
    rw [← entryOk.named]
    rfl
  nHeight_nonneg := by
    apply Int32.le_iff_toInt_le.mpr
    rw [Int32.toInt_ofNat_of_lt height]
    exact Int.natCast_nonneg _
  nFile_nonneg := parts.nFile_nonneg
  parents_le := by
    rw [List.length_map]
    exact few

variable (entryOk : EntryOk env entries hash pindex) (height : pindex.nHeight < 2 ^ 31)
  (few : pindex.vDagParents.length ≤ maxSize)

theorem record_entryOf (parts : FileParts) :
    (entryOf entryOk height few parts).diskIndex.record = Node.CDiskBlockIndex.ofIndex pindex := by
  have level : (Int32.ofNat pindex.nHeight).toInt.toNat = pindex.nHeight := by
    rw [Int32.toInt_ofNat_of_lt height, Int.toNat_natCast]
  have status := statusOf_statusWord pindex.nStatus parts.haveUndo parts.optWitness
  have parents := reduceOption_map_some pindex.vDagParents
  apply Node.CDiskBlockIndex.ext
  · exact level
  · exact status
  all_goals first | rfl | exact parents

theorem reads_readBack (parts : FileParts) (rest : Bytes) :
    ∃ diskindex : CDiskBlockIndex,
      CDiskBlockIndex.unserialize {}
          ((entryOf entryOk height few parts).diskIndex.serialize ++ rest) = .ok (diskindex, rest) ∧
      diskindex.record = (Node.CDiskBlockIndex.ofIndex pindex).readBack := by
  refine ⟨_, (entryOf entryOk height few parts).reads_diskIndex rest, ?_⟩
  rw [CDiskBlockIndex.record_readBack, record_entryOf]

theorem genesis_entryOk : EntryOk nonceChain (fun _ => none) nonceChain.hashGenesisBlock
    (.ofHeader nonceChain.genesis.toCBlockHeader) where
  named := by decide +kernel
  prev := .inl ⟨rfl, rfl⟩
  parents := by rintro _ ⟨⟩
  pow other := absurd rfl other

theorem reads_readBack_genesis :
    ∃ diskindex : CDiskBlockIndex,
      CDiskBlockIndex.unserialize {} ((entryOf genesis_entryOk (by decide) (by decide)
          ⟨0, 8, 0, false, true, by decide⟩).diskIndex.serialize ++ [1]) = .ok (diskindex, [1]) ∧
      diskindex.record = (Node.CDiskBlockIndex.ofIndex
        (.ofHeader nonceChain.genesis.toCBlockHeader)).readBack :=
  reads_readBack genesis_entryOk (by decide) (by decide) _ [1]

end BlockTree

end QuantBTC.Node.Disk
