/-
# Primitives.BlockSerialization -- the wire form of a header and what its hash binds

`SERIALIZE_METHODS(CBlockHeader)` in both directions.  A header with the DAG bit has
`hashParentsRoot` before the nonce and the counted `hashParents` after it; a header
without the bit has neither, and reading it leaves both fields as they were.  The
fields up to the nonce are also what `GetHash` writes, so one reader serves twice: it
gives the round trip, and, read at equal hash inputs, it gives equal fields.
-/
import QuantBTC.Primitives.Block
import QuantBTC.Theory.Codec

namespace QuantBTC.Primitives

set_option autoImplicit false

open Theory (Reader)
open Theory.Reader (Reads)

def maxSize : Nat := 0x02000000

def maxBlockParentsSerialization : Nat := 64

abbrev Unserialize := Reader String UInt8

/-! ## Integers and hashes -/

def serReaddata (width : Nat) : Unserialize Nat := do
  let bytes ← Reader.take "DataStream::read(): end of data" width
  pure (ofLeBytes bytes)

theorem reads_leBytes {width n : Nat} (fits : n < 256 ^ width) :
    Reads (serReaddata width) (leBytes width n) n := by
  have bytes := Reads.take "DataStream::read(): end of data" (leBytes width n)
  rw [length_leBytes] at bytes
  have number := bytes.bind_pure ofLeBytes
  rwa [ofLeBytes_leBytes fits] at number

def readUInt32 : Unserialize UInt32 := do
  let n ← serReaddata 4
  pure (UInt32.ofNat n)

theorem reads_uint32 (n : UInt32) : Reads readUInt32 (leBytes 4 n.toNat) n := by
  have bytes : Reads (serReaddata 4) (leBytes 4 n.toNat) n.toNat := reads_leBytes n.toNat_lt
  have number := bytes.bind_pure UInt32.ofNat
  rwa [UInt32.ofNat_toNat] at number

def readInt32 : Unserialize Int32 := do
  let n ← readUInt32
  pure n.toInt32

theorem reads_int32 (n : Int32) : Reads readInt32 (leBytes 4 n.toUInt32.toNat) n := by
  have number := (reads_uint32 n.toUInt32).bind_pure UInt32.toInt32
  rwa [Int32.toInt32_toUInt32] at number

def readUint256 : Unserialize Uint256 := do
  let bytes ← Reader.take "DataStream::read(): end of data" 32
  pure (Fin.ofNat (2 ^ 256) (ofLeBytes bytes.reverse))

theorem reads_uint256 (x : Uint256) : Reads readUint256 (uint256Bytes x) x := by
  have bytes := Reads.take "DataStream::read(): end of data" (uint256Bytes x)
  rw [length_uint256Bytes] at bytes
  have number := bytes.bind_pure
    (fun bytes : Bytes => Fin.ofNat (2 ^ 256) (ofLeBytes bytes.reverse))
  have digits : ofLeBytes (uint256Bytes x).reverse = x.val := by
    rw [uint256Bytes, List.reverse_reverse]
    exact ofLeBytes_leBytes (lt_of_lt_of_eq x.isLt (by decide))
  rwa [digits, Fin.ofNat_val_eq_self] at number

theorem reads_hashes (hashes : List Uint256) :
    Reads (Reader.many readUint256 hashes.length) (hashes.flatMap uint256Bytes) hashes :=
  Reads.many fun hash _ => reads_uint256 hash

def readCanonical (width least : Nat) : Unserialize Nat := do
  let nSizeRet ← serReaddata width
  if nSizeRet < least then throw "non-canonical ReadCompactSize()" else pure nSizeRet

def readSizeForm (chSize : Nat) : Unserialize Nat :=
  if chSize < 253 then pure chSize
  else if chSize = 253 then readCanonical 2 253
  else if chSize = 254 then readCanonical 4 0x10000
  else readCanonical 8 0x100000000

def readCompactSize : Unserialize Nat := do
  let chSize ← serReaddata 1
  let nSizeRet ← readSizeForm chSize
  if nSizeRet > maxSize then throw "ReadCompactSize(): size too large" else pure nSizeRet

theorem reads_unless {bad : Prop} [Decidable bad] {text : String} {n : Nat} (passes : ¬bad) :
    Reads (if bad then throw text else pure n : Unserialize Nat) [] n := by
  rw [if_neg passes]
  exact Reads.pure n

theorem reads_canonical {width least n : Nat} (fits : n < 256 ^ width) (canonical : least ≤ n) :
    Reads (readCanonical width least) (leBytes width n) n := by
  rw [← List.append_nil (leBytes width n)]
  exact (reads_leBytes fits).bind (reads_unless (Nat.not_lt.mpr canonical))

theorem reads_marker (marker : UInt8) : Reads (serReaddata 1) [marker] marker.toNat := by
  have byte : Reads (serReaddata 1) (leBytes 1 marker.toNat) marker.toNat :=
    reads_leBytes marker.toNat_lt
  rwa [leBytes, leBytes, UInt8.ofNat_toNat] at byte

theorem reads_compactSize {n : Nat} (inRange : n ≤ maxSize) :
    Reads readCompactSize (writeCompactSize n) n := by
  have bounded : Reads (if n > maxSize then throw "ReadCompactSize(): size too large" else pure n :
      Unserialize Nat) [] n := reads_unless (Nat.not_lt.mpr inRange)
  have below : n ≤ 0x02000000 := inRange
  rw [← List.append_nil (writeCompactSize n), writeCompactSize]
  split
  next oneByte =>
    have form : Reads (readSizeForm n) [] n := by
      rw [readSizeForm, if_pos oneByte]
      exact Reads.pure n
    refine (reads_leBytes (by omega)).bind ?_
    rw [← List.append_nil []]
    exact form.bind bounded
  next =>
    split
    next =>
      exact (reads_marker 253).bind ((reads_canonical (by omega) (by omega)).bind bounded)
    next =>
      rw [if_pos (by omega)]
      exact (reads_marker 254).bind ((reads_canonical (by omega) (by omega)).bind bounded)

/-! ## The header on the wire -/

namespace CBlockHeader

def parentsBytes (header : CBlockHeader) : Bytes :=
  if header.isDagBlock then
    writeCompactSize header.hashParents.length ++ header.hashParents.flatMap uint256Bytes
  else []

def serialize (header : CBlockHeader) : Bytes := header.hashedBytes ++ header.parentsBytes

def unserializeFields (obj : CBlockHeader) : Unserialize CBlockHeader := do
  let nVersion ← readInt32
  let hashPrevBlock ← readUint256
  let hashMerkleRoot ← readUint256
  let nTime ← readUInt32
  let nBits ← readUInt32
  let hashParentsRoot ← (if nVersion &&& blockVersionDagmode != 0 then readUint256
    else pure obj.hashParentsRoot : Unserialize Uint256)
  let nNonce ← readUInt32
  pure { obj with nVersion, hashPrevBlock, hashMerkleRoot, nTime, nBits, hashParentsRoot, nNonce }

def unserializeParents (obj : CBlockHeader) : Unserialize CBlockHeader :=
  if obj.isDagBlock then do
    let nSize ← readCompactSize
    if nSize > maxBlockParentsSerialization then
      throw "hashParents size exceeds MAX_BLOCK_PARENTS_SERIALIZATION"
    else do
      let hashParents ← Reader.many readUint256 nSize
      pure { obj with hashParents }
  else pure obj

def unserialize (obj : CBlockHeader) : Unserialize CBlockHeader := do
  let fields ← unserializeFields obj
  unserializeParents fields

structure OnWire (header : CBlockHeader) : Prop where
  parents_le : header.hashParents.length ≤ maxBlockParentsSerialization
  received : header.Received

def fieldsInto (header obj : CBlockHeader) : CBlockHeader :=
  { header with
    hashParentsRoot := if header.isDagBlock then header.hashParentsRoot else obj.hashParentsRoot
    hashParents := obj.hashParents }

theorem reads_root (header : CBlockHeader) (old : Uint256) :
    Reads (if header.isDagBlock then readUint256 else pure old : Unserialize Uint256)
      (if header.isDagBlock then uint256Bytes header.hashParentsRoot else [])
      (if header.isDagBlock then header.hashParentsRoot else old) :=
  (reads_uint256 header.hashParentsRoot).optional old

theorem reads_fields (header obj : CBlockHeader) :
    Reads (unserializeFields obj) header.hashedBytes (header.fieldsInto obj) := by
  simp only [hashedBytes, List.append_assoc]
  refine (reads_int32 header.nVersion).bind ?_
  refine (reads_uint256 header.hashPrevBlock).bind ?_
  refine (reads_uint256 header.hashMerkleRoot).bind ?_
  refine (reads_uint32 header.nTime).bind ?_
  refine (reads_uint32 header.nBits).bind ?_
  refine (reads_root header obj.hashParentsRoot).bind ?_
  exact (reads_uint32 header.nNonce).bind_pure _

theorem reads_parents {header : CBlockHeader} (obj : CBlockHeader) (onWire : header.OnWire)
    (dag : header.isDagBlock = true) :
    Reads (unserializeParents (header.fieldsInto obj)) header.parentsBytes header := by
  have bounded := onWire.parents_le
  have inRange : header.hashParents.length ≤ maxSize := le_trans bounded (by decide)
  have bit : (header.fieldsInto obj).isDagBlock = true := dag
  have whole : { header.fieldsInto obj with hashParents := header.hashParents } = header := by
    rw [fieldsInto, if_pos dag]
  rw [unserializeParents, if_pos bit, parentsBytes, if_pos dag]
  refine (reads_compactSize inRange).bind ?_
  rw [if_neg (Nat.not_lt.mpr bounded)]
  have parents := (reads_hashes header.hashParents).bind_pure
    (fun hashParents => { header.fieldsInto obj with hashParents := hashParents })
  rwa [whole] at parents

theorem reads_header {header : CBlockHeader} (onWire : header.OnWire) :
    Reads (unserialize {}) header.serialize header := by
  refine (reads_fields header {}).bind ?_
  cases dag : header.isDagBlock with
  | true => exact reads_parents {} onWire dag
  | false =>
    -- Without the bit nothing follows the nonce, and the fields kept from the empty object
    -- are those the header has.
    have kept := onWire.received.resolve_left (by rw [dag]; decide)
    have same : header.fieldsInto {} = header := by
      rw [fieldsInto, dag, ← kept.1, ← kept.2]
      rfl
    have bit : (header.fieldsInto {}).isDagBlock = false := dag
    rw [unserializeParents, bit, parentsBytes, dag, same]
    exact Reads.pure header

/-! ## What the hash binds -/

def CommitsParents (hash256 : Bytes → Uint256) (header : CBlockHeader) : Prop :=
  header.hashParentsRoot = computeParentsRoot hash256 header.hashParents

instance (hash256 : Bytes → Uint256) (header : CBlockHeader) :
    Decidable (header.CommitsParents hash256) :=
  inferInstanceAs (Decidable (_ = _))

def hashInputs (header : CBlockHeader) : List Bytes :=
  [header.hashedBytes, header.hashParents.flatMap uint256Bytes]

theorem flatMap_uint256Bytes_injective :
    Function.Injective (fun parents : List Uint256 => parents.flatMap uint256Bytes) := by
  intro one two same
  have width (parents : List Uint256) :
      (parents.flatMap uint256Bytes).length = 32 * parents.length := by
    induction parents with
    | nil => rfl
    | cons parent parents ih =>
      rw [List.flatMap_cons, List.length_append, length_uint256Bytes, ih, List.length_cons]
      omega
  have count : one.length = two.length := by
    have lengths := congrArg List.length same
    simp only [width] at lengths
    omega
  have readOne := reads_hashes one
  have readTwo := reads_hashes two
  rw [← count, ← show one.flatMap uint256Bytes = two.flatMap uint256Bytes from same] at readTwo
  exact readOne.unique readTwo

section Binding

variable {hash256 : Bytes → Uint256} {a b : CBlockHeader}

theorem parents_eq_of_root {one two : List Uint256}
    (collisionFree : one.flatMap uint256Bytes ≠ two.flatMap uint256Bytes →
      hash256 (one.flatMap uint256Bytes) ≠ hash256 (two.flatMap uint256Bytes))
    (nonzeroOne : hash256 (one.flatMap uint256Bytes) ≠ 0)
    (nonzeroTwo : hash256 (two.flatMap uint256Bytes) ≠ 0)
    (roots : computeParentsRoot hash256 one = computeParentsRoot hash256 two) : one = two := by
  cases one with
  | nil =>
    cases two with
    | nil => rfl
    | cons parent parents => exact absurd roots.symm nonzeroTwo
  | cons parent parents =>
    cases two with
    | nil => exact absurd roots nonzeroOne
    | cons other others =>
      by_contra differ
      exact collisionFree (flatMap_uint256Bytes_injective.ne differ) roots

theorem fieldsInto_eq_of_hashedBytes (same : a.hashedBytes = b.hashedBytes) :
    a.fieldsInto {} = b.fieldsInto {} := by
  have readA := reads_fields a {}
  rw [same] at readA
  exact readA.unique (reads_fields b {})

theorem eq_of_fieldsInto (wireA : a.OnWire) (wireB : b.OnWire)
    (fields : a.fieldsInto {} = b.fieldsInto {})
    (parents : a.isDagBlock = true → b.isDagBlock = true →
      a.hashParentsRoot = b.hashParentsRoot → a.hashParents = b.hashParents) : a = b := by
  have bits : (a.fieldsInto {}).isDagBlock = (b.fieldsInto {}).isDagBlock := by rw [fields]
  change a.isDagBlock = b.isDagBlock at bits
  have whole (header : CBlockHeader) (onWire : header.OnWire) :
      { header.fieldsInto {} with hashParents := header.hashParents } = header := by
    cases dag : header.isDagBlock with
    | true => simp only [fieldsInto, dag, if_true]
    | false =>
      have kept := onWire.received.resolve_left (by rw [dag]; decide)
      simp only [fieldsInto, dag, Bool.false_eq_true, if_false, ← kept.1]
  have lists : a.hashParents = b.hashParents := by
    cases dag : a.isDagBlock with
    | true =>
      have roots := congrArg hashParentsRoot fields
      simp only [fieldsInto, dag, ← bits, if_true] at roots
      exact parents dag (bits ▸ dag) roots
    | false =>
      have keptA := wireA.received.resolve_left (by rw [dag]; decide)
      have keptB := wireB.received.resolve_left (by rw [← bits, dag]; decide)
      rw [keptA.2, keptB.2]
  rw [← whole a wireA, ← whole b wireB, fields, lists]

theorem eq_of_getHash (wireA : a.OnWire) (wireB : b.OnWire)
    (commitsA : a.CommitsParents hash256) (commitsB : b.CommitsParents hash256)
    (collisionFree : Set.InjOn hash256 {bytes | bytes ∈ a.hashInputs ++ b.hashInputs})
    (nonzero : ∀ bytes ∈ a.hashInputs ++ b.hashInputs, hash256 bytes ≠ 0)
    (same : a.getHash hash256 = b.getHash hash256) : a = b := by
  have hashed : a.hashedBytes = b.hashedBytes :=
    collisionFree (by simp [hashInputs]) (by simp [hashInputs]) same
  refine eq_of_fieldsInto wireA wireB (fieldsInto_eq_of_hashedBytes hashed) ?_
  intro _ _ roots
  rw [commitsA, commitsB] at roots
  refine parents_eq_of_root ?_ (nonzero _ (by simp [hashInputs])) (nonzero _ (by simp [hashInputs]))
    roots
  intro differ equalHash
  exact differ (collisionFree (by simp [hashInputs]) (by simp [hashInputs]) equalHash)

end Binding

/-- **Encoding and binding.**  Every header that fits the wire reads back from what is written
for it, followed by any bytes, leaving those bytes; and two such headers that commit to their
parents and have one hash are one header, where the hash has no collision and no zero among the
byte strings hashed for them. -/
theorem header_encoding_binds (hash256 : Bytes → Uint256) :
    (∀ header : CBlockHeader, header.OnWire → ∀ rest : Bytes,
      unserialize {} (header.serialize ++ rest) = .ok (header, rest)) ∧
    (∀ a b : CBlockHeader, a.OnWire → b.OnWire →
      a.CommitsParents hash256 → b.CommitsParents hash256 →
      Set.InjOn hash256 {bytes | bytes ∈ a.hashInputs ++ b.hashInputs} →
      (∀ bytes ∈ a.hashInputs ++ b.hashInputs, hash256 bytes ≠ 0) →
      a.getHash hash256 = b.getHash hash256 → a = b) := by
  refine ⟨?_, ?_⟩
  · intro header onWire rest
    exact reads_header onWire rest
  · intro a b wireA wireB commitsA commitsB collisionFree nonzero same
    exact eq_of_getHash wireA wireB commitsA commitsB collisionFree nonzero same

def twoParents (first second : Uint256) : CBlockHeader :=
  { nVersion := blockVersionDagmode ||| 1
    hashPrevBlock := 3
    nBits := 0x1d00ffff
    hashParentsRoot := computeParentsRoot digitHash [first, second]
    hashParents := [first, second] }

theorem injOn_of_nodup {hash256 : Bytes → Uint256} {inputs listed : List Bytes}
    (distinct : (listed.map hash256).Nodup) (within : ∀ bytes ∈ inputs, bytes ∈ listed) :
    Set.InjOn hash256 {bytes | bytes ∈ inputs} := fun _ left _ right same =>
  List.inj_on_of_nodup_map distinct (within _ left) (within _ right) same

def readBack : CBlockHeader :=
  match unserialize {} (twoParents 5 6).serialize with
  | .ok (header, _) => header
  | .error _ => {}

/-- The header with parents 5 and 6 has the hash of what is read back, which is therefore that
header; the header with parents 6 and 5 has another hash. -/
theorem header_encoding_binds_twoParents :
    unserialize {} ((twoParents 5 6).serialize ++ [7]) = .ok (twoParents 5 6, [7]) ∧
      twoParents 5 6 = readBack ∧
      (twoParents 5 6).getHash digitHash ≠ (twoParents 6 5).getHash digitHash := by
  have wire : (twoParents 5 6).OnWire ∧ (twoParents 6 5).OnWire ∧ readBack.OnWire :=
    ⟨⟨by decide, by decide⟩, ⟨by decide, by decide⟩, ⟨by decide +kernel, by decide +kernel⟩⟩
  have commits : (twoParents 5 6).CommitsParents digitHash ∧
      (twoParents 6 5).CommitsParents digitHash ∧ readBack.CommitsParents digitHash := by
    decide +kernel
  have distinct : (((twoParents 5 6).hashInputs ++ (twoParents 6 5).hashInputs).map
      digitHash).Nodup := by decide +kernel
  have nonzero : ∀ bytes ∈ (twoParents 5 6).hashInputs ++ (twoParents 6 5).hashInputs,
      digitHash bytes ≠ 0 := by decide +kernel
  have within : ∀ bytes ∈ (twoParents 5 6).hashInputs ++ readBack.hashInputs,
      bytes ∈ (twoParents 5 6).hashInputs ++ (twoParents 6 5).hashInputs := by decide +kernel
  refine ⟨(header_encoding_binds digitHash).1 _ wire.1 [7], ?_, ?_⟩
  · exact (header_encoding_binds digitHash).2 _ _ wire.1 wire.2.2 commits.1 commits.2.2
      (injOn_of_nodup distinct within) (fun bytes listed => nonzero bytes (within bytes listed))
      (by decide +kernel)
  · intro same
    have equal := (header_encoding_binds digitHash).2 _ _ wire.1 wire.2.1 commits.1 commits.2.1
      (injOn_of_nodup distinct (fun _ listed => listed)) nonzero same
    exact absurd (congrArg (fun header : CBlockHeader => header.hashParents) equal) (by decide)

end CBlockHeader

end QuantBTC.Primitives
