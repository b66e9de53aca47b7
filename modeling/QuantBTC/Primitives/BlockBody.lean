/-
# Primitives.BlockBody -- transactions and blocks on the wire, and the Merkle root

`SerializeTransaction` and `UnserializeTransaction` with their extended form for
witnesses, the block around them, and `ComputeMerkleRoot`.
-/
import QuantBTC.Primitives.BlockSerialization
import QuantBTC.Theory.Hex

namespace QuantBTC.Primitives

set_option autoImplicit false

open Theory (Reader)
open Theory.Reader (Reads Parses)

/-! ## Numbers, as they are accepted -/

theorem parses_serReaddata (width : Nat) :
    Parses (serReaddata width) fun n written => written = leBytes width n ∧ n < 256 ^ width := by
  refine (Parses.take _ width).bind_pure ?_
  rintro _ bytes ⟨rfl, rfl⟩
  exact ⟨(leBytes_ofLeBytes bytes).symm, ofLeBytes_lt bytes⟩

theorem parses_uint32 : Parses readUInt32 fun n written => written = uint32Bytes n := by
  refine (parses_serReaddata 4).bind_pure ?_
  rintro n _ ⟨rfl, small⟩
  rw [uint32Bytes, UInt32.toNat_ofNat_of_lt' small]

theorem parses_uint256 : Parses readUint256 fun x written => written = uint256Bytes x := by
  refine (Parses.take _ 32).bind_pure ?_
  rintro _ bytes ⟨rfl, width⟩
  exact (uint256Bytes_uint256OfBytes width).symm

theorem parses_canonical (width least : Nat) : Parses (readCanonical width least)
    fun n written => written = leBytes width n ∧ n < 256 ^ width ∧ least ≤ n := by
  refine (parses_serReaddata width).bind ?_
  rintro n _ ⟨rfl, small⟩
  split
  next => exact Parses.throw _
  next canonical =>
    refine Parses.pure ⟨?_, small, Nat.not_lt.mp canonical⟩
    rw [List.append_nil]

theorem parses_sizeForm (chSize : Nat) : Parses (readSizeForm chSize)
    fun n written => n ≤ maxSize → leBytes 1 chSize ++ written = writeCompactSize n := by
  unfold readSizeForm
  split
  next small =>
    refine Parses.pure fun _ => ?_
    rw [List.append_nil, writeCompactSize, if_pos small]
  next =>
    split
    next marker =>
      refine (parses_canonical 2 253).mono ?_
      rintro n _ ⟨rfl, bound, least⟩ _
      rw [writeCompactSize, if_neg (by omega), if_pos (by omega), marker]
      rfl
    next =>
      split
      next marker =>
        refine (parses_canonical 4 0x10000).mono ?_
        rintro n _ ⟨rfl, bound, least⟩ _
        rw [writeCompactSize, if_neg (by omega), if_neg (by omega), if_pos (by omega), marker]
        rfl
      next =>
        refine (parses_canonical 8 0x100000000).mono ?_
        rintro n _ ⟨rfl, bound, least⟩ inRange
        have tooLarge : maxSize < 0x100000000 := by decide
        omega

theorem parses_compactSize : Parses readCompactSize
    fun n written => written = writeCompactSize n := by
  refine (parses_serReaddata 1).bind ?_
  rintro chSize _ ⟨rfl, -⟩
  refine (parses_sizeForm chSize).bind ?_
  intro n written form
  split
  next => exact Parses.throw _
  next inRange =>
    refine Parses.pure ?_
    rw [List.append_nil]
    exact form (Nat.not_lt.mp inRange)

def readInt64 : Unserialize Int := do
  let n ← serReaddata 8
  pure (if n < 2 ^ 63 then (n : Int) else (n : Int) - 2 ^ 64)

def IsInt64 (x : Int) : Prop := -2 ^ 63 ≤ x ∧ x < 2 ^ 63

instance (x : Int) : Decidable (IsInt64 x) := inferInstanceAs (Decidable (_ ∧ _))

theorem reads_int64 {x : Int} (fits : IsInt64 x) : Reads readInt64 (int64Bytes x) x := by
  obtain ⟨low, high⟩ := fits
  have bytes : Reads (serReaddata 8) (int64Bytes x) (x % 2 ^ 64).toNat :=
    reads_leBytes (by omega)
  have number := bytes.bind_pure
    (fun n : Nat => if n < 2 ^ 63 then (n : Int) else (n : Int) - 2 ^ 64)
  have value : (if (x % 2 ^ 64).toNat < 2 ^ 63 then ((x % 2 ^ 64).toNat : Int)
      else ((x % 2 ^ 64).toNat : Int) - 2 ^ 64) = x := by
    split <;> omega
  rwa [value] at number

theorem parses_int64 : Parses readInt64 fun x written => written = int64Bytes x := by
  refine (parses_serReaddata 8).bind_pure ?_
  rintro n _ ⟨rfl, small⟩
  have value : ((if n < 2 ^ 63 then (n : Int) else (n : Int) - 2 ^ 64) % 2 ^ 64).toNat = n := by
    split <;> omega
  rw [int64Bytes, value]

/-! ## Vectors -/

section Vectors

variable {α : Type}

def vectorOf (write : α → Bytes) (values : List α) : Bytes :=
  writeCompactSize values.length ++ values.flatMap write

def readVector (reader : Unserialize α) : Unserialize (List α) := do
  let nSize ← readCompactSize
  Reader.many reader nSize

variable {reader : Unserialize α} {write : α → Bytes}

theorem reads_vector {values : List α} (inRange : values.length ≤ maxSize)
    (element : ∀ value ∈ values, Reads reader (write value) value) :
    Reads (readVector reader) (vectorOf write values) values :=
  (reads_compactSize inRange).bind (Reads.many element)

theorem parses_vector {Valid : α → Prop}
    (element : Parses reader fun value written => written = write value ∧ Valid value) :
    Parses (readVector reader) fun values written =>
      written = vectorOf write values ∧ ∀ value ∈ values, Valid value := by
  refine parses_compactSize.bind ?_
  rintro n _ rfl
  refine (Parses.many element n).mono ?_
  rintro values _ ⟨rfl, rfl, valid⟩
  exact ⟨rfl, valid⟩

end Vectors

def readBytes : Unserialize Bytes := do
  let nSize ← readCompactSize
  Reader.take "DataStream::read(): end of data" nSize

theorem reads_bytes {bytes : Bytes} (inRange : bytes.length ≤ maxSize) :
    Reads readBytes (vectorBytes bytes) bytes :=
  (reads_compactSize inRange).bind (Reads.take _ bytes)

theorem parses_bytes : Parses readBytes fun bytes written => written = vectorBytes bytes := by
  refine parses_compactSize.bind ?_
  rintro n _ rfl
  refine (Parses.take _ n).mono ?_
  rintro bytes _ ⟨rfl, rfl⟩
  rfl

/-! ## Inputs and outputs -/

def readOutPoint : Unserialize COutPoint := do
  let hash ← readUint256
  let n ← readUInt32
  pure { hash, n }

def CTxIn.serialize (txin : CTxIn) : Bytes :=
  txin.prevout.serialize ++ vectorBytes txin.scriptSig ++ uint32Bytes txin.nSequence

def readTxIn : Unserialize CTxIn := do
  let prevout ← readOutPoint
  let scriptSig ← readBytes
  let nSequence ← readUInt32
  pure { prevout, scriptSig, nSequence }

def readTxOut : Unserialize CTxOut := do
  let nValue ← readInt64
  let scriptPubKey ← readBytes
  pure { nValue, scriptPubKey }

def CTxIn.bare (txin : CTxIn) : CTxIn := { txin with scriptWitness := [] }

structure CTxIn.OnWire (txin : CTxIn) : Prop where
  scriptSig_le : txin.scriptSig.length ≤ maxSize
  witness_le : txin.scriptWitness.length ≤ maxSize
  items_le : ∀ item ∈ txin.scriptWitness, item.length ≤ maxSize

structure CTxOut.OnWire (txout : CTxOut) : Prop where
  value : IsInt64 txout.nValue
  script_le : txout.scriptPubKey.length ≤ maxSize

theorem reads_outPoint (outpoint : COutPoint) :
    Reads readOutPoint outpoint.serialize outpoint :=
  (reads_uint256 outpoint.hash).bind ((reads_uint32 outpoint.n).bind_pure _)

theorem reads_txIn {txin : CTxIn} (onWire : txin.OnWire) :
    Reads readTxIn txin.serialize txin.bare := by
  rw [CTxIn.serialize, List.append_assoc]
  refine (reads_outPoint txin.prevout).bind ?_
  refine (reads_bytes onWire.scriptSig_le).bind ?_
  exact (reads_uint32 txin.nSequence).bind_pure _

theorem reads_txOut {txout : CTxOut} (onWire : txout.OnWire) :
    Reads readTxOut txout.serialize txout :=
  (reads_int64 onWire.value).bind ((reads_bytes onWire.script_le).bind_pure _)

theorem parses_outPoint : Parses readOutPoint
    fun outpoint written => written = outpoint.serialize := by
  refine parses_uint256.bind ?_
  rintro hash _ rfl
  refine parses_uint32.bind_pure ?_
  rintro n _ rfl
  rfl

theorem parses_txIn : Parses readTxIn
    fun txin written => written = txin.serialize ∧ txin.bare = txin := by
  refine parses_outPoint.bind ?_
  rintro prevout _ rfl
  refine parses_bytes.bind ?_
  rintro scriptSig _ rfl
  refine parses_uint32.bind_pure ?_
  rintro nSequence _ rfl
  refine ⟨?_, rfl⟩
  rw [CTxIn.serialize, List.append_assoc]

theorem parses_txOut : Parses readTxOut
    fun txout written => written = txout.serialize ∧ True := by
  refine parses_int64.bind ?_
  rintro nValue _ rfl
  refine parses_bytes.bind_pure ?_
  rintro scriptPubKey _ rfl
  exact ⟨rfl, trivial⟩

/-! ## Transactions -/

def CTxIn.witnessBytes (txin : CTxIn) : Bytes := vectorOf vectorBytes txin.scriptWitness

def CTxIn.hasWitness (txin : CTxIn) : Bool := !txin.scriptWitness.isEmpty

namespace CTransaction

def hasWitness (tx : CTransaction) : Bool := tx.vin.any CTxIn.hasWitness

def serialize (allowWitness : Bool) (tx : CTransaction) : Bytes :=
  let flags := allowWitness && tx.hasWitness
  uint32Bytes tx.version ++ (if flags then vectorOf CTxIn.serialize [] ++ [1] else []) ++
    vectorOf CTxIn.serialize tx.vin ++ vectorOf CTxOut.serialize tx.vout ++
    (if flags then tx.vin.flatMap CTxIn.witnessBytes else []) ++ uint32Bytes tx.nLockTime

def getHash (hash256 : Bytes → Uint256) (tx : CTransaction) : Uint256 :=
  hash256 (tx.serialize false)

structure OnWire (tx : CTransaction) : Prop where
  vin_ne : tx.vin ≠ []
  vin_le : tx.vin.length ≤ maxSize
  vout_le : tx.vout.length ≤ maxSize
  inputs : ∀ txin ∈ tx.vin, txin.OnWire
  outputs : ∀ txout ∈ tx.vout, txout.OnWire

end CTransaction

def readInputsOutputs (vin : List CTxIn) : Unserialize (Nat × List CTxIn × List CTxOut) :=
  if vin.isEmpty then do
    let flags ← serReaddata 1
    if flags ≠ 0 then do
      let vin ← readVector readTxIn
      let vout ← readVector readTxOut
      pure (flags, vin, vout)
    else pure (flags, [], [])
  else do
    let vout ← readVector readTxOut
    pure (0, vin, vout)

def readWitnesses : List CTxIn → Unserialize (List CTxIn)
  | [] => pure []
  | txin :: vin => do
      let scriptWitness ← readVector readBytes
      let others ← readWitnesses vin
      pure ({ txin with scriptWitness } :: others)

def readWitnessPart (flags : Nat) (vin : List CTxIn) : Unserialize (Nat × List CTxIn) :=
  if flags &&& 1 ≠ 0 then do
    let vin ← readWitnesses vin
    if vin.any CTxIn.hasWitness then pure (flags ^^^ 1, vin)
    else throw "Superfluous witness record"
  else pure (flags, vin)

def readTransaction : Unserialize CTransaction := do
  let version ← readUInt32
  let dummy ← readVector readTxIn
  let body ← readInputsOutputs dummy
  let witness ← readWitnessPart body.1 body.2.1
  if witness.1 ≠ 0 then throw "Unknown transaction optional data" else do
    let nLockTime ← readUInt32
    pure { vin := witness.2, vout := body.2.2, version, nLockTime }

variable {vin : List CTxIn}

theorem reads_witnesses (onWire : ∀ txin ∈ vin, txin.OnWire) :
    Reads (readWitnesses (vin.map CTxIn.bare)) (vin.flatMap CTxIn.witnessBytes) vin := by
  induction vin with
  | nil => exact Reads.pure []
  | cons txin vin ih =>
    obtain ⟨first, others⟩ := List.forall_mem_cons.mp onWire
    have stack : Reads (readVector readBytes) txin.witnessBytes txin.scriptWitness :=
      reads_vector first.witness_le fun item listed => reads_bytes (first.items_le item listed)
    rw [List.flatMap_cons, List.map_cons]
    exact stack.bind ((ih others).bind_pure _)

theorem vectorOf_bare (vin : List CTxIn) :
    vectorOf CTxIn.serialize (vin.map CTxIn.bare) = vectorOf CTxIn.serialize vin := by
  rw [vectorOf, vectorOf, List.length_map, List.flatMap_map]
  rfl

theorem reads_inputs (inRange : vin.length ≤ maxSize) (onWire : ∀ txin ∈ vin, txin.OnWire) :
    Reads (readVector readTxIn) (vectorOf CTxIn.serialize vin) (vin.map CTxIn.bare) := by
  rw [← vectorOf_bare]
  apply reads_vector
  · rwa [List.length_map]
  · intro value listed
    obtain ⟨txin, inVin, rfl⟩ := List.mem_map.mp listed
    show Reads readTxIn txin.serialize txin.bare
    exact reads_txIn (onWire txin inVin)

theorem map_bare_of_noWitness (noWitness : vin.any CTxIn.hasWitness = false) :
    vin.map CTxIn.bare = vin := by
  induction vin with
  | nil => rfl
  | cons txin vin ih =>
    rw [List.any_cons, Bool.or_eq_false_iff] at noWitness
    have empty : txin.scriptWitness = [] := by
      simpa [CTxIn.hasWitness] using noWitness.1
    rw [List.map_cons, ih noWitness.2, CTxIn.bare, ← empty]

theorem noWitness_of_bare (bare : ∀ txin ∈ vin, txin.bare = txin) :
    vin.any CTxIn.hasWitness = false := by
  rw [List.any_eq_false]
  intro txin listed
  rw [← bare txin listed]
  exact Bool.false_ne_true

/-- **Round trip of a transaction.** -/
theorem reads_transaction {tx : CTransaction} (onWire : tx.OnWire) :
    Reads readTransaction (tx.serialize true) tx := by
  have inputs := reads_inputs onWire.vin_le onWire.inputs
  have outputs : Reads (readVector readTxOut) (vectorOf CTxOut.serialize tx.vout) tx.vout :=
    reads_vector onWire.vout_le fun txout listed => reads_txOut (onWire.outputs txout listed)
  have lockTime := reads_uint32 tx.nLockTime
  rw [CTransaction.serialize, Bool.true_and]
  simp only [List.append_assoc]
  refine (reads_uint32 tx.version).bind ?_
  cases witness : tx.hasWitness with
  | false =>
    simp only [Bool.false_eq_true, if_false, List.nil_append]
    rw [map_bare_of_noWitness witness] at inputs
    refine inputs.bind ?_
    have body : Reads (readInputsOutputs tx.vin) (vectorOf CTxOut.serialize tx.vout)
        (0, tx.vin, tx.vout) := by
      rw [readInputsOutputs, if_neg (by simpa using onWire.vin_ne)]
      exact outputs.bind_pure _
    refine body.bind ?_
    rw [← List.nil_append (uint32Bytes tx.nLockTime)]
    have part : Reads (readWitnessPart 0 tx.vin) [] (0, tx.vin) := Reads.pure _
    refine part.bind ?_
    rw [if_neg (by simp)]
    exact lockTime.bind_pure _
  | true =>
    simp only [if_true, List.append_assoc]
    -- The dummy vector has no element, so it is one zero byte.
    have dummy : Reads (readVector readTxIn) (vectorOf CTxIn.serialize []) [] :=
      reads_vector (Nat.zero_le _) fun txin listed => by cases listed
    refine dummy.bind ?_
    have body : Reads (readInputsOutputs [])
        ([1] ++ (vectorOf CTxIn.serialize tx.vin ++ vectorOf CTxOut.serialize tx.vout))
        (1, tx.vin.map CTxIn.bare, tx.vout) := by
      refine (reads_marker 1).bind ?_
      exact inputs.bind (outputs.bind_pure _)
    have part : Reads (readWitnessPart 1 (tx.vin.map CTxIn.bare))
        (tx.vin.flatMap CTxIn.witnessBytes) (0, tx.vin) := by
      rw [readWitnessPart, if_pos (by decide), ← List.append_nil (tx.vin.flatMap CTxIn.witnessBytes)]
      refine (reads_witnesses onWire.inputs).bind ?_
      have present : tx.vin.any CTxIn.hasWitness = true := witness
      rw [if_pos present]
      exact Reads.pure _
    rw [← List.append_assoc (vectorOf CTxIn.serialize tx.vin), ← List.append_assoc [1]]
    refine body.bind (part.bind ?_)
    rw [if_neg (by simp)]
    exact lockTime.bind_pure _

theorem parses_witnesses (bare : ∀ txin ∈ vin, txin.bare = txin) :
    Parses (readWitnesses vin) fun result written =>
      written = result.flatMap CTxIn.witnessBytes ∧ result.map CTxIn.bare = vin := by
  have item : Parses readBytes fun bytes written => written = vectorBytes bytes ∧ True :=
    parses_bytes.mono fun _ _ same => ⟨same, trivial⟩
  induction vin with
  | nil => exact Parses.pure ⟨rfl, rfl⟩
  | cons txin vin ih =>
    obtain ⟨first, others⟩ := List.forall_mem_cons.mp bare
    refine (parses_vector item).bind ?_
    rintro scriptWitness _ ⟨rfl, -⟩
    refine (ih others).bind_pure ?_
    rintro result _ ⟨rfl, same⟩
    refine ⟨rfl, ?_⟩
    rw [List.map_cons, same]
    exact congrArg (· :: vin) first

theorem parses_inputsOutputs {dummy : List CTxIn} (bare : ∀ txin ∈ dummy, txin.bare = txin) :
    Parses (readInputsOutputs dummy) fun body written =>
      (∀ txin ∈ body.2.1, txin.bare = txin) ∧
      ((body.1 = 0 ∧ body.2.1 = dummy ∧ written = vectorOf CTxOut.serialize body.2.2) ∨
        (dummy = [] ∧ body.1 ≠ 0 ∧ written = leBytes 1 body.1 ++
          vectorOf CTxIn.serialize body.2.1 ++ vectorOf CTxOut.serialize body.2.2)) := by
  unfold readInputsOutputs
  split
  next isDummy =>
    have isDummy : dummy = [] := List.isEmpty_iff.mp isDummy
    refine (parses_serReaddata 1).bind ?_
    rintro flags _ ⟨rfl, -⟩
    split
    next extended =>
      refine (parses_vector parses_txIn).bind ?_
      rintro vin _ ⟨rfl, bareVin⟩
      refine (parses_vector parses_txOut).bind_pure ?_
      rintro vout _ ⟨rfl, -⟩
      refine ⟨bareVin, .inr ⟨isDummy, extended, ?_⟩⟩
      rw [List.append_assoc]
    next plain =>
      have plain : flags = 0 := not_not.mp plain
      subst plain isDummy
      exact Parses.pure ⟨bare, .inl ⟨rfl, rfl, rfl⟩⟩
  next =>
    refine (parses_vector parses_txOut).bind_pure ?_
    rintro vout _ ⟨rfl, -⟩
    exact ⟨bare, .inl ⟨rfl, rfl, rfl⟩⟩

theorem parses_witnessPart (flags : Nat) (bare : ∀ txin ∈ vin, txin.bare = txin) :
    Parses (readWitnessPart flags vin) fun part written =>
      part.1 = 0 → part.2.map CTxIn.bare = vin ∧
        ((flags = 0 ∧ part.2 = vin ∧ written = []) ∨
          (flags = 1 ∧ part.2.any CTxIn.hasWitness = true ∧
            written = part.2.flatMap CTxIn.witnessBytes)) := by
  unfold readWitnessPart
  split
  next announced =>
    refine (parses_witnesses bare).bind ?_
    rintro result _ ⟨rfl, same⟩
    split
    next present =>
      refine Parses.pure fun nothingLeft => ⟨same, .inr ⟨?_, present, List.append_nil _⟩⟩
      exact Nat.xor_left_inj.mp (nothingLeft.trans (Nat.xor_self 1).symm)
    next => exact Parses.throw _
  next =>
    refine Parses.pure fun nothingLeft => ⟨?_, .inl ⟨nothingLeft, rfl, rfl⟩⟩
    exact map_bare_of_noWitness (noWitness_of_bare bare)

theorem parses_transaction : Parses readTransaction
    fun tx written => written = tx.serialize true := by
  refine parses_uint32.bind ?_
  rintro version _ rfl
  refine (parses_vector parses_txIn).bind ?_
  rintro dummy _ ⟨rfl, bareDummy⟩
  refine (parses_inputsOutputs bareDummy).bind ?_
  rintro ⟨flags, vin, vout⟩ _ ⟨bareVin, form⟩
  refine (parses_witnessPart flags bareVin).bind ?_
  rintro ⟨left, inputs⟩ _ part
  split
  next => exact Parses.throw _
  next nothingLeft =>
    obtain ⟨same, part⟩ := part (not_not.mp nothingLeft)
    have vinBytes := vectorOf_bare inputs
    refine parses_uint32.bind_pure ?_
    rintro nLockTime _ rfl
    dsimp only at form same part vinBytes ⊢
    rw [same] at vinBytes
    rcases form with ⟨rfl, rfl, rfl⟩ | ⟨rfl, extended, rfl⟩
    · obtain ⟨-, rfl, rfl⟩ := part.resolve_right fun announced => by cases announced.1
      have noWitness : inputs.any CTxIn.hasWitness = false := noWitness_of_bare bareVin
      simp only [CTransaction.serialize, CTransaction.hasWitness, noWitness, Bool.and_false,
        Bool.false_eq_true, if_false, List.append_nil, List.append_assoc]
      rfl
    · obtain ⟨rfl, present, rfl⟩ := part.resolve_left fun plain => extended plain.1
      simp only [CTransaction.serialize, CTransaction.hasWitness, present, Bool.and_true,
        if_true, vinBytes, List.append_assoc]
      rfl

/-! ## Blocks -/

namespace CBlock

def serialize (block : CBlock) : Bytes :=
  block.toCBlockHeader.serialize ++ vectorOf (CTransaction.serialize true) block.vtx

def unserialize : Unserialize CBlock := do
  let header ← CBlockHeader.unserialize {}
  let vtx ← readVector readTransaction
  pure { toCBlockHeader := header, vtx }

end CBlock

theorem reads_block {block : CBlock} (header : block.toCBlockHeader.OnWire)
    (vtx_le : block.vtx.length ≤ maxSize) (vtx : ∀ tx ∈ block.vtx, tx.OnWire) :
    Reads CBlock.unserialize block.serialize block := by
  refine (CBlockHeader.reads_header header).bind ?_
  exact (reads_vector vtx_le fun tx listed => reads_transaction (vtx tx listed)).bind_pure _

def isHex (text : List Char) : Bool :=
  text.all Theory.Hex.isDigit && !text.isEmpty && text.length % 2 == 0

def decodeHexBlk (strHexBlk : List Char) : Option CBlock :=
  if isHex strHexBlk then do
    let blockData ← Theory.Hex.fromHex strHexBlk
    match CBlock.unserialize blockData with
    | .ok (block, _) => some block
    | .error _ => none
  else none

theorem decodeHexBlk_toHex {bytes : Bytes} (nonempty : bytes ≠ []) :
    decodeHexBlk (Theory.Hex.toHex bytes) =
      match CBlock.unserialize bytes with
      | .ok (block, _) => some block
      | .error _ => none := by
  have digits : (Theory.Hex.toHex bytes).all Theory.Hex.isDigit = true := by
    have lower := Theory.Hex.lower_toHex bytes
    rw [List.all_eq_true] at lower ⊢
    exact fun c listed => Theory.Hex.isDigit_of_isLower (lower c listed)
  have length := Theory.Hex.length_toHex bytes
  have positive := List.length_pos_iff.mpr nonempty
  have hex : isHex (Theory.Hex.toHex bytes) = true := by
    rw [isHex, digits, length]
    have some : (Theory.Hex.toHex bytes).isEmpty = false := by
      rw [List.isEmpty_eq_false_iff, ← List.length_pos_iff]
      omega
    simp [some]
  rw [decodeHexBlk, if_pos hex, Theory.Hex.fromHex_toHex]
  rfl

def witnessBlock : CBlock where
  vtx := [{ vin := [{ prevout := ⟨1, 0⟩, scriptWitness := [[7], []] }], vout := [] }]

section Merkle

variable (hash256 : Bytes → Uint256)

def nodeBytes (left right : Uint256) : Bytes := uint256Bytes left ++ uint256Bytes right

def levelInputs : List Uint256 → List Bytes
  | [] => []
  | [last] => [nodeBytes last last]
  | left :: right :: rest => nodeBytes left right :: levelInputs rest

def merkleLoop : Nat → List Uint256 → List Uint256
  | 0, hashes => hashes
  | fuel + 1, hashes =>
    if 1 < hashes.length then merkleLoop fuel ((levelInputs hashes).map hash256) else hashes

def computeMerkleRoot (hashes : List Uint256) : Uint256 :=
  (merkleLoop hash256 hashes.length hashes).headD 0

def merkleInputs : Nat → List Uint256 → List Bytes
  | 0, _ => []
  | fuel + 1, hashes =>
    if 1 < hashes.length then
      levelInputs hashes ++ merkleInputs fuel ((levelInputs hashes).map hash256)
    else []

theorem length_levelInputs (hashes : List Uint256) :
    (levelInputs hashes).length = (hashes.length + 1) / 2 := by
  induction hashes using levelInputs.induct with
  | case1 => rfl
  | case2 last => simp [levelInputs]
  | case3 left right rest ih =>
    rw [levelInputs, List.length_cons, ih, List.length_cons, List.length_cons]
    omega

variable {hashes : List Uint256}

theorem length_of_mem_levelInputs {input : Bytes} (listed : input ∈ levelInputs hashes) :
    input.length = 64 := by
  have width (left right : Uint256) : (nodeBytes left right).length = 64 := by
    rw [nodeBytes, List.length_append, length_uint256Bytes, length_uint256Bytes]
  induction hashes using levelInputs.induct with
  | case1 => cases listed
  | case2 last =>
    rw [levelInputs, List.mem_singleton] at listed
    rw [listed, width]
  | case3 left right rest ih =>
    rcases List.mem_cons.mp listed with rfl | later
    · exact width left right
    · exact ih later

variable {hash256}

theorem length_merkleLoop_le_one {fuel : Nat} (enough : hashes.length ≤ fuel) :
    (merkleLoop hash256 fuel hashes).length ≤ 1 := by
  induction fuel generalizing hashes with
  | zero =>
    rw [merkleLoop]
    omega
  | succ fuel ih =>
    rw [merkleLoop]
    split
    next more =>
      apply ih
      rw [List.length_map, length_levelInputs]
      omega
    next single => omega

theorem merkleLoop_eq_hash {fuel : Nat} (two : 2 ≤ hashes.length) (enough : hashes.length ≤ fuel) :
    ∃ input ∈ merkleInputs hash256 fuel hashes, input.length = 64 ∧
      merkleLoop hash256 fuel hashes = [hash256 input] := by
  induction fuel generalizing hashes with
  | zero => omega
  | succ fuel ih =>
    have count := length_levelInputs hashes
    rw [merkleLoop, if_pos (by omega), merkleInputs, if_pos (by omega)]
    by_cases last : hashes.length = 2
    · -- One node is left, and a list of one hash is not touched any more.
      obtain ⟨input, inputs⟩ := List.length_eq_one_iff.mp (show (levelInputs hashes).length = 1 by
        omega)
      have stays : merkleLoop hash256 fuel [hash256 input] = [hash256 input] := by
        cases fuel with
        | zero => rfl
        | succ fuel => rfl
      refine ⟨input, ?_, ?_, ?_⟩
      · rw [inputs]
        exact List.mem_append_left _ (List.mem_singleton_self input)
      · exact length_of_mem_levelInputs (by rw [inputs]; exact List.mem_singleton_self input)
      · rwa [inputs]
    · have above : ((levelInputs hashes).map hash256).length = (hashes.length + 1) / 2 := by
        rw [List.length_map, count]
      obtain ⟨input, listed, width, root⟩ :=
        @ih ((levelInputs hashes).map hash256) (by omega) (by omega)
      exact ⟨input, List.mem_append_right _ listed, width, root⟩

theorem computeMerkleRoot_eq_hash (two : 2 ≤ hashes.length) :
    ∃ input ∈ merkleInputs hash256 hashes.length hashes, input.length = 64 ∧
      computeMerkleRoot hash256 hashes = hash256 input := by
  obtain ⟨input, listed, width, root⟩ := merkleLoop_eq_hash two (le_refl hashes.length)
  exact ⟨input, listed, width, by rw [computeMerkleRoot, root]; rfl⟩

end Merkle

end QuantBTC.Primitives
