/-
# Pool.Assembly -- the block that the pool submits

The bytes of `_build_block_hex` against what the node reads.  The header of a DAG version
reads back with the hash that was checked, and the transactions follow it; but the Merkle
root in it is the identifier of the coinbase alone, and the length of the input script is
announced for four bytes of extranonce.
-/
import QuantBTC.Pool.Job

namespace QuantBTC.Pool

set_option autoImplicit false

open Primitives Theory.Hex
open Theory (Reader)
open Theory.Reader (Reads Parses)

/-! ## What is meant -/

def coinbaseTransactionOf (settings : Settings) (tmpl : Template) (token : Token 8)
    (extranonce2 : Text) : Option CTransaction := do
  let heightPush ← heightPush (tmpl.height.getD 0)
  let scriptPubkey ← fromHex settings.poolMiningScript
  let witnessScript ← fromHex tmpl.witnessScriptHex
  let bytes ← fromHex extranonce2
  some (CoinbaseValues.coinbaseTransaction
    { heightPush, coinbaseValue := tmpl.coinbasevalue.getD 0, scriptPubkey, witnessScript }
    (token.bytes ++ bytes))

def Assembled (hashes : HashFunctions) (settings : Settings) (tmpl : Template)
    (txs : List CTransaction) (client : PoolClient) (job : Job) (submission : Submission) : Prop :=
  ∃ blockHex block shareHash shareTarget isBlockCandidate coinbase,
    buildBlockHex hashes job client.subscriptionId.text submission.extranonce2 submission.ntime
      submission.nonce = some blockHex ∧
    decodeHexBlk blockHex = some block ∧
    computeShareHash hashes settings client job submission.extranonce2 submission.ntime
      submission.nonce = some (shareHash, shareTarget, isBlockCandidate) ∧
    uintToArith256 (block.getHash hashes.hash256) = shareHash ∧
    coinbaseTransactionOf settings tmpl client.subscriptionId submission.extranonce2 =
      some coinbase ∧
    block.vtx = coinbase :: txs ∧
    block.hashMerkleRoot =
      computeMerkleRoot hashes.hash256 (block.vtx.map (CTransaction.getHash hashes.hash256))

def Template.nVersion (tmpl : Template) : Int32 :=
  (UInt32.ofNat (tmpl.version.getD 0).toNat).toInt32

def Template.isDag (tmpl : Template) : Bool := CBlockHeader.isDagBlock { nVersion := tmpl.nVersion }

def rootStrings (hashes : HashFunctions) (settings : Settings) (tmpl : Template)
    (txs : List CTransaction) (client : PoolClient) (job : Job) (submission : Submission) :
    List Bytes :=
  ((coinbaseOf job client.subscriptionId.text submission.extranonce2).map nonWitness).toList ++
    (coinbaseTransactionOf settings tmpl client.subscriptionId submission.extranonce2).elim []
      fun coinbase => merkleInputs hashes.hash256 (1 + txs.length)
        ((coinbase :: txs).map (CTransaction.getHash hashes.hash256))

/-! ## The header -/

namespace ShareFields

def header (hashes : HashFunctions) (fields : ShareFields) : CBlockHeader where
  nVersion := (UInt32.ofNat (ofLeBytes fields.version)).toInt32
  hashPrevBlock := uint256OfBytes fields.prevhash.reverse
  hashMerkleRoot := hashes.hash256 (nonWitness fields.coinbase)
  nTime := UInt32.ofNat (ofLeBytes fields.time)
  nBits := UInt32.ofNat (ofLeBytes fields.nbits)
  nNonce := UInt32.ofNat (ofLeBytes fields.nonce)

variable (hashes : HashFunctions) (fields : ShareFields)

def front : Bytes :=
  fields.version ++ (fields.prevhash.reverse ++ (computeTxid hashes fields.coinbase ++
    (fields.time ++ fields.nbits)))

theorem bytes_eq_front :
    fields.bytes hashes = fields.front hashes ++ (List.replicate 32 0 ++ fields.nonce) := by
  simp only [bytes, front, List.append_assoc]

theorem header_front :
    leBytes 4 (fields.header hashes).nVersion.toUInt32.toNat ++
        uint256Bytes (fields.header hashes).hashPrevBlock ++
        uint256Bytes (fields.header hashes).hashMerkleRoot ++
        leBytes 4 (fields.header hashes).nTime.toNat ++
        leBytes 4 (fields.header hashes).nBits.toNat =
      fields.front hashes := by
  have version : leBytes 4 (fields.header hashes).nVersion.toUInt32.toNat = fields.version := by
    show leBytes 4 (UInt32.ofNat (ofLeBytes fields.version)).toInt32.toUInt32.toNat = _
    rw [UInt32.toUInt32_toInt32, leBytes_uint32_ofNat fields.version_length]
  have prevhash : uint256Bytes (fields.header hashes).hashPrevBlock = fields.prevhash.reverse :=
    uint256Bytes_uint256OfBytes (by rw [List.length_reverse, fields.prevhash_length])
  have time : leBytes 4 (fields.header hashes).nTime.toNat = fields.time :=
    leBytes_uint32_ofNat fields.time_length
  have nbits : leBytes 4 (fields.header hashes).nBits.toNat = fields.nbits :=
    leBytes_uint32_ofNat fields.nbits_length
  rw [version, prevhash, time, nbits]
  simp only [front, List.append_assoc]
  rfl

variable {hashes fields}

theorem hashedBytes_header (dag : (fields.header hashes).isDagBlock = true) :
    (fields.header hashes).hashedBytes = fields.bytes hashes := by
  have zeros : uint256Bytes 0 = List.replicate 32 0 := by decide +kernel
  have nonce : leBytes 4 (fields.header hashes).nNonce.toNat = fields.nonce :=
    leBytes_uint32_ofNat fields.nonce_length
  have root : (fields.header hashes).hashParentsRoot = 0 := rfl
  rw [CBlockHeader.hashedBytes, if_pos dag, header_front, nonce, root, zeros, bytes_eq_front,
    List.append_assoc]

theorem unserialize_block {header : CBlockHeader} (onWire : header.OnWire) (rest : Bytes) :
    CBlock.unserialize (header.serialize ++ rest) =
      (readVector readTransaction rest).map fun out =>
        ({ toCBlockHeader := header, vtx := out.1 }, out.2) := by
  rw [CBlock.unserialize, (CBlockHeader.reads_header onWire).bind_apply]
  exact Reader.bind_pure_apply _ _ rest

theorem unserialize_dag (dag : (fields.header hashes).isDagBlock = true) (rest : Bytes) :
    CBlock.unserialize (fields.bytes hashes ++ ([0] ++ rest)) =
      (readVector readTransaction rest).map fun out =>
        ({ toCBlockHeader := fields.header hashes, vtx := out.1 }, out.2) := by
  have onWire : (fields.header hashes).OnWire := ⟨Nat.zero_le _, .inl dag⟩
  have wire : (fields.header hashes).serialize = fields.bytes hashes ++ [0] := by
    rw [CBlockHeader.serialize, hashedBytes_header dag, CBlockHeader.parentsBytes, if_pos dag]
    rfl
  rw [← unserialize_block onWire, wire, List.append_assoc]

theorem unserialize_classical (classical : (fields.header hashes).isDagBlock = false)
    (rest : Bytes) {block : CBlock} {left : Bytes}
    (read : CBlock.unserialize (fields.bytes hashes ++ rest) = .ok (block, left)) :
    block.vtx = [] := by
  have wire : ({ fields.header hashes with nNonce := 0 } : CBlockHeader).serialize =
      fields.front hashes ++ List.replicate 4 0 := by
    have bit : ({ fields.header hashes with nNonce := 0 } : CBlockHeader).isDagBlock = false :=
      classical
    have zero : leBytes 4 (0 : UInt32).toNat = List.replicate 4 0 := by decide
    rw [CBlockHeader.serialize, CBlockHeader.hashedBytes, CBlockHeader.parentsBytes, bit]
    grind [Bool.false_eq_true, List.append_nil, header_front]
  have onWire : ({ fields.header hashes with nNonce := 0 } : CBlockHeader).OnWire :=
    ⟨Nat.zero_le _, .inr ⟨rfl, rfl⟩⟩
  have empty : Reads (readVector readTransaction) (vectorOf (CTransaction.serialize true) []) [] :=
    reads_vector (Nat.zero_le _) fun tx listed => by cases listed
  have count : vectorOf (CTransaction.serialize true) [] = [0] := by decide
  have split : fields.bytes hashes ++ rest = (fields.front hashes ++ List.replicate 4 0) ++
      ([0] ++ (List.replicate 27 0 ++ (fields.nonce ++ rest))) := by
    simp only [bytes_eq_front, List.append_assoc]
    rfl
  rw [split, ← wire, unserialize_block onWire, ← count, empty] at read
  cases read
  rfl

end ShareFields

/-! ## The transactions -/

theorem txCountBytes_eq_some {txCount : Nat} {count : Bytes}
    (written : txCountBytes txCount = some count) : count = writeCompactSize txCount := by
  unfold txCountBytes at written
  split at written
  next small =>
    cases written
    rw [writeCompactSize, if_pos small]
    rfl
  next large =>
    obtain ⟨two, packed, rfl⟩ := Option.map_eq_some_iff.mp written
    obtain ⟨-, rfl, -, value⟩ := packUInt_eq_some packed
    have bound := ofLeBytes_lt (leBytes 2 (txCount : Int).toNat)
    rw [value, length_leBytes, Int.toNat_natCast] at bound
    rw [Int.toNat_natCast, writeCompactSize, if_neg large, if_pos (by omega)]

theorem mapM_data (txs : List CTransaction) :
    (txs.map fun tx => ({ data := some (toHex (tx.serialize true)) } : TemplateTx)).mapM
        (fun tx => fromHex (tx.data.getD [])) =
      some (txs.map (CTransaction.serialize true)) := by
  induction txs with
  | nil => rfl
  | cons tx txs ih =>
    rw [List.map_cons, List.mapM_cons, ih, Option.getD_some, fromHex_toHex]
    rfl

structure Taken (hashes : HashFunctions) (settings : Settings) (tmpl : Template)
    (txs : List CTransaction) (client : PoolClient) (job : Job) (submission : Submission) where
  values : CoinbaseValues
  extranonce2 : Bytes
  fields : ShareFields
  wellFormed : values.WellFormed
  extranonce2_read : fromHex submission.extranonce2 = some extranonce2
  extranonce2_length : 2 * extranonce2.length = submission.extranonce2.length ∧
    extranonce2.length ≤ 32
  coinbase : coinbaseOf job client.subscriptionId.text submission.extranonce2 = some fields.coinbase
  coinbase_eq : fields.coinbase =
    values.coinbaseBytes (client.subscriptionId.bytes ++ extranonce2)
  transaction :
    coinbaseTransactionOf settings tmpl client.subscriptionId submission.extranonce2 =
      some (values.coinbaseTransaction (client.subscriptionId.bytes ++ extranonce2))
  header : headerBytes hashes job client.subscriptionId.text submission.extranonce2 submission.ntime
    submission.nonce = some (fields.bytes hashes)
  dag : (fields.header hashes).isDagBlock = tmpl.isDag
  transactions : tmpl.transactions =
    txs.map fun tx => { data := some (toHex (tx.serialize true)) }
  ofTemplate : job.tmpl = some tmpl

section Submitted

variable {hashes : HashFunctions} {settings : Settings} {tmpl : Template} {txs : List CTransaction}
  {client : PoolClient} {job : Job} {submission : Submission}

theorem exists_taken {reason : ShareReason} {now : Int} {jobId : Text}
    (answer : tmpl.IsAnswer txs) (built : nextJob settings tmpl now jobId = some job)
    (passed : Passed hashes settings client job submission reason) :
    Nonempty (Taken hashes settings tmpl txs client job submission) := by
  obtain ⟨values, versionLe, holds, -⟩ := nextJob_eq_some built
  obtain ⟨prevhash, nbits, plain⟩ := holds.plain answer
  obtain ⟨bytes, read, length, short⟩ : ∃ bytes : Bytes,
      fromHex submission.extranonce2 = some bytes ∧
      2 * bytes.length = submission.extranonce2.length ∧ bytes.length ≤ 32 := by
    rcases passed.extranonce2 with empty | hex
    · exact ⟨[], by rw [empty]; rfl, by rw [empty]; rfl, Nat.zero_le _⟩
    · grind [isHexString_bytes]
  have assembled := holds.coinbaseOf_eq client.subscriptionId read
  obtain ⟨fields, isVersion, -, isCoinbase, -, -, -, header⟩ :=
    plain.shareFields hashes assembled passed.ntime passed.nonce
  have value := (packUInt_eq_some holds.packed).2.2.2
  refine ⟨⟨values, bytes, fields, holds.wellFormed answer, read, ⟨length, short⟩, ?_, isCoinbase, ?_,
    header, ?_, answer.transactions, holds.ofTemplate⟩⟩
  · rw [assembled, isCoinbase]
  · rw [coinbaseTransactionOf, holds.height, holds.script, holds.witnessScript, read, ← holds.value]
    rfl
  · have version : (fields.header hashes).nVersion = tmpl.nVersion := by
      show (UInt32.ofNat (ofLeBytes fields.version)).toInt32 = _
      rw [isVersion, value]
      rfl
    rw [CBlockHeader.isDagBlock, version]
    rfl

namespace Taken

variable (taken : Taken hashes settings tmpl txs client job submission)

def body (count : Bytes) : Bytes :=
  count ++ (taken.fields.coinbase ++ (txs.map (CTransaction.serialize true)).flatten)

theorem buildBlockHex_eq :
    buildBlockHex hashes job client.subscriptionId.text submission.extranonce2 submission.ntime
        submission.nonce =
      (txCountBytes (1 + txs.length)).map fun count =>
        toHex (taken.fields.bytes hashes ++ ([0] ++ taken.body count)) := by
  have txList : job.tmpl.elim [] Template.transactions =
      txs.map fun tx => { data := some (toHex (tx.serialize true)) } := by
    rw [taken.ofTemplate]
    exact taken.transactions
  simp only [buildBlockHex, taken.coinbase, taken.header, txList, List.length_map, mapM_data,
    Option.bind_eq_bind, Option.bind_some]
  cases txCountBytes (1 + txs.length) with
  | none => rfl
  | some count =>
    simp only [Option.bind_some, Option.map_some, ← toHex_append, body, List.append_assoc]

variable {block : CBlock}

/-- **What the node reads of the block.** -/
theorem unserialize_of_decode {blockHex : Text} (written : buildBlockHex hashes job
      client.subscriptionId.text submission.extranonce2 submission.ntime submission.nonce = some
      blockHex) (decoded : decodeHexBlk blockHex = some block) :
    ∃ left, CBlock.unserialize (taken.fields.bytes hashes ++
      ([0] ++ taken.body (writeCompactSize (1 + txs.length)))) = .ok (block, left) := by
  rw [taken.buildBlockHex_eq] at written
  obtain ⟨count, counted, rfl⟩ := Option.map_eq_some_iff.mp written
  rw [txCountBytes_eq_some counted, decodeHexBlk_toHex (by simp)] at decoded
  grind

theorem body_of_unserialize (dag : tmpl.isDag = true) {left : Bytes} (read : CBlock.unserialize
      (taken.fields.bytes hashes ++ ([0] ++ taken.body (writeCompactSize (1 + txs.length)))) = .ok
      (block, left)) :
    block.toCBlockHeader = taken.fields.header hashes ∧
      taken.body (writeCompactSize (1 + txs.length)) =
        vectorOf (CTransaction.serialize true) block.vtx ++ left := by
  rw [ShareFields.unserialize_dag (taken.dag.trans dag)] at read
  cases vector : readVector readTransaction (taken.body (writeCompactSize (1 + txs.length))) with
  | error failure =>
    rw [vector] at read
    cases read
  | ok out =>
    rw [vector] at read
    cases read
    have element : Parses readTransaction
        fun tx written => written = tx.serialize true ∧ True :=
      parses_transaction.mono fun _ _ same => ⟨same, trivial⟩
    obtain ⟨written, split, rfl, -⟩ := parses_vector element _ _ _ vector
    exact ⟨rfl, split⟩

theorem twelve_of_body {left : Bytes} (vtx : block.vtx = taken.values.coinbaseTransaction
      (client.subscriptionId.bytes ++ taken.extranonce2) :: txs) (body : taken.body
      (writeCompactSize (1 + txs.length)) = vectorOf (CTransaction.serialize true) block.vtx ++
      left) : (client.subscriptionId.bytes ++ taken.extranonce2).length = 12 := by
  have short := taken.extranonce2_length.2
  rw [vtx, vectorOf, List.length_cons, Nat.add_comm txs.length 1, List.append_assoc,
    List.flatMap_cons, List.append_assoc, Taken.body, taken.coinbase_eq] at body
  apply CoinbaseValues.twelve_of_coinbaseBytes taken.wellFormed
  · rw [List.length_append, client.subscriptionId.length_bytes]
    omega
  · exact List.append_cancel_left body

theorem noTransactions_of_root
    (noCollision : Set.InjOn hashes.hash256
      {bytes | bytes ∈ rootStrings hashes settings tmpl txs client job submission})
    (root : hashes.hash256 (nonWitness taken.fields.coinbase) =
      computeMerkleRoot hashes.hash256 ((taken.values.coinbaseTransaction
        (client.subscriptionId.bytes ++ taken.extranonce2) :: txs).map
          (CTransaction.getHash hashes.hash256))) : txs = [] := by
  by_contra some
  have positive := List.length_pos_iff.mpr some
  have two : 2 ≤ ((taken.values.coinbaseTransaction
      (client.subscriptionId.bytes ++ taken.extranonce2) :: txs).map
        (CTransaction.getHash hashes.hash256)).length := by
    rw [List.length_map, List.length_cons]
    omega
  obtain ⟨input, listed, width, isRoot⟩ := @computeMerkleRoot_eq_hash hashes.hash256 _ two
  rw [List.length_map, List.length_cons, Nat.add_comm] at listed
  have inPool : nonWitness taken.fields.coinbase ∈
      rootStrings hashes settings tmpl txs client job submission := by
    rw [rootStrings, taken.coinbase]
    exact List.mem_append_left _ (List.mem_singleton_self _)
  have inNode : input ∈ rootStrings hashes settings tmpl txs client job submission := by
    rw [rootStrings, taken.transaction]
    exact List.mem_append_right _ listed
  have same := noCollision inPool inNode (root.trans isRoot)
  have length := CoinbaseValues.length_strippedCoinbase taken.wellFormed
    (client.subscriptionId.bytes ++ taken.extranonce2)
  rw [← CoinbaseValues.nonWitness_coinbase, ← taken.coinbase_eq, same, width] at length
  omega

end Taken

theorem assembled_of_taken (taken : Taken hashes settings tmpl txs client job submission)
    {reason : ShareReason} (passed : Passed hashes settings client job submission reason)
    (dag : tmpl.isDag = true) (none : txs = []) (four : taken.extranonce2.length = 4) :
    Assembled hashes settings tmpl txs client job submission := by
  subst none
  have twelve : (client.subscriptionId.bytes ++ taken.extranonce2).length = 12 := by
    rw [List.length_append, client.subscriptionId.length_bytes, four]
  obtain ⟨withWitness, without⟩ := CoinbaseValues.serialize_of_twelve taken.wellFormed twelve
  obtain ⟨shareHash, shareTarget, isBlockCandidate, hash, -, -⟩ := passed.hash
  have isHash := computeShareHash_hash hash taken.header
  have isDag : (taken.fields.header hashes).isDagBlock = true := taken.dag.trans dag
  have body : taken.body [1] = vectorOf (CTransaction.serialize true)
      [taken.values.coinbaseTransaction (client.subscriptionId.bytes ++ taken.extranonce2)] ++
        [] := by
    rw [vectorOf, List.flatMap_cons, withWitness, ← taken.coinbase_eq, List.append_nil]
    rfl
  have vector : Reads (readVector readTransaction) (vectorOf (CTransaction.serialize true)
      [taken.values.coinbaseTransaction (client.subscriptionId.bytes ++ taken.extranonce2)])
      [taken.values.coinbaseTransaction (client.subscriptionId.bytes ++ taken.extranonce2)] := by
    apply reads_vector
    · exact show 1 ≤ maxSize by decide
    · intro tx listed
      rw [List.mem_singleton.mp listed]
      exact reads_transaction (CoinbaseValues.onWire_coinbaseTransaction taken.wellFormed twelve)
  refine ⟨toHex (taken.fields.bytes hashes ++ ([0] ++ taken.body [1])),
    { toCBlockHeader := taken.fields.header hashes
      vtx := [taken.values.coinbaseTransaction
        (client.subscriptionId.bytes ++ taken.extranonce2)] },
    shareHash, shareTarget, isBlockCandidate, _, ?_, ?_, hash, ?_, taken.transaction, rfl, ?_⟩
  · rw [taken.buildBlockHex_eq]
    rfl
  · rw [decodeHexBlk_toHex (by simp), ShareFields.unserialize_dag isDag, body, vector]
    rfl
  · rw [isHash, ← ShareFields.hashedBytes_header isDag]
    rfl
  · show hashes.hash256 (nonWitness taken.fields.coinbase) = hashes.hash256 _
    rw [taken.coinbase_eq, CoinbaseValues.nonWitness_coinbase, without]

end Submitted

/-! ## The condition -/

/-- **When the block is the one meant.**  For the job of a template that the node answers with and a
submission accepted as a block candidate, the block is well formed exactly when the version has the
DAG bit, the template has no transactions, and the second extranonce is the four bytes that the
coinbase was written for. -/
theorem assembled_iff (hashes : HashFunctions) (settings : Settings) (tmpl : Template)
    (txs : List CTransaction) (client : PoolClient) (job : Job) (submission : Submission)
    (jobHistory : AList fun _ : Text => Job) (jobId : Text) (created now : Int)
    (answer : tmpl.IsAnswer txs) (built : nextJob settings tmpl created jobId = some job)
    (candidate : validateShareSubmission hashes settings jobHistory client submission now =
      ⟨true, .blockCandidate, some job⟩)
    (noCollision : Set.InjOn hashes.hash256
      {bytes | bytes ∈ rootStrings hashes settings tmpl txs client job submission}) :
    Assembled hashes settings tmpl txs client job submission ↔
      tmpl.isDag = true ∧ tmpl.transactions = [] ∧ submission.extranonce2.length = 8 := by
  obtain ⟨-, job', -, answered, passed⟩ :=
    validateShareSubmission_accepted (show
      (validateShareSubmission hashes settings jobHistory client submission now).accepted = true by
        rw [candidate])
  rw [candidate] at answered passed
  cases answered
  obtain ⟨taken⟩ := exists_taken answer built passed
  have length := taken.extranonce2_length.1
  constructor
  · rintro ⟨blockHex, block, _, _, _, coinbase, written, decoded, -, -, transaction, vtx, root⟩
    obtain ⟨left, read⟩ := taken.unserialize_of_decode written decoded
    rw [taken.transaction] at transaction
    cases transaction
    have dag : tmpl.isDag = true := by
      by_contra classical
      have empty := ShareFields.unserialize_classical
        (taken.dag.trans (Bool.eq_false_iff.mpr classical)) _ read
      simp [vtx] at empty
    obtain ⟨header, body⟩ := taken.body_of_unserialize dag read
    have twelve := taken.twelve_of_body vtx body
    rw [List.length_append, client.subscriptionId.length_bytes] at twelve
    have isRoot : block.hashMerkleRoot = hashes.hash256 (nonWitness taken.fields.coinbase) := by
      rw [header]
      rfl
    rw [vtx, isRoot] at root
    have none := taken.noTransactions_of_root noCollision root
    refine ⟨dag, ?_, by omega⟩
    rw [taken.transactions, none]
    rfl
  · rintro ⟨dag, none, eight⟩
    rw [taken.transactions, List.map_eq_nil_iff] at none
    exact assembled_of_taken taken passed dag none (by omega)

/-! ## Two templates -/

def sampleTemplate (txs : List CTransaction) : Template where
  previousblockhash := some (toHex (List.replicate 32 0xab))
  curtime := some 1700000000
  height := some 150
  version := some 0x30000000
  bits := some "207fffff".toList
  defaultWitnessCommitment := none
  coinbasevalue := some 5000000000
  transactions := txs.map fun tx => { data := some (toHex (tx.serialize true)) }

theorem isAnswer_sampleTemplate (txs : List CTransaction) : (sampleTemplate txs).IsAnswer txs where
  previousblockhash := ⟨List.replicate 32 0xab, by decide, rfl⟩
  bits := ⟨"207fffff".toList, rfl, by decide, by decide⟩
  commitment := ⟨[0x6a, 0x24, 0xaa, 0x21, 0xa9, 0xed] ++ List.replicate 32 0xee, by decide,
    show placeholderCommitment = _ by decide⟩
  transactions := rfl

def sampleClient : PoolClient where
  subscriptionId := ⟨[1, 2, 3, 4, 5, 6, 7, 8], rfl⟩
  authorized := true
  workerName := some "miner.rig".toList
  difficulty := 0.000001

def sampleJobId : Text := "4f1d0c2a9b33".toList

def sampleJob (txs : List CTransaction) : Job :=
  (nextJob shipped (sampleTemplate txs) 1700000000 sampleJobId).getD (bootstrapJob 0)

def sampleHistory (txs : List CTransaction) : AList fun _ : Text => Job :=
  AList.singleton sampleJobId (sampleJob txs)

def sampleSubmission : Submission where
  workerName := "miner.rig".toList
  jobId := sampleJobId
  extranonce2 := "00000001".toList
  ntime := "0af15365".toList
  nonce := "0000ca83".toList

/-- A template without transactions makes a well-formed block. -/
theorem assembled_emptyTemplate :
    validateShareSubmission digitHashes shipped (sampleHistory []) sampleClient sampleSubmission
        1700000010 = ⟨true, .blockCandidate, some (sampleJob [])⟩ ∧
      Assembled digitHashes shipped (sampleTemplate []) [] sampleClient (sampleJob [])
        sampleSubmission := by
  have candidate : validateShareSubmission digitHashes shipped (sampleHistory []) sampleClient
      sampleSubmission 1700000010 = ⟨true, .blockCandidate, some (sampleJob [])⟩ := by
    decide +kernel
  have built : nextJob shipped (sampleTemplate []) 1700000000 sampleJobId = some (sampleJob []) := by
    decide +kernel
  have distinct : ((rootStrings digitHashes shipped (sampleTemplate []) [] sampleClient (sampleJob [])
      sampleSubmission).map digitHashes.hash256).Nodup := by decide +kernel
  refine ⟨candidate, ?_⟩
  exact (assembled_iff digitHashes shipped (sampleTemplate []) [] sampleClient (sampleJob [])
    sampleSubmission (sampleHistory []) sampleJobId 1700000000 1700000010
    (isAnswer_sampleTemplate []) built candidate
    (CBlockHeader.injOn_of_nodup distinct fun _ listed => listed)).mpr
    ⟨by decide +kernel, rfl, by decide⟩

def sampleTransaction : CTransaction where
  vin := [{ prevout := { hash := 7, n := 0 }, scriptSig := [0x51] }]
  vout := [{ nValue := 1000, scriptPubKey := [0x51] }]

def sampleBlock : CBlock :=
  ((buildBlockHex digitHashes (sampleJob [sampleTransaction]) sampleClient.subscriptionId.text
    sampleSubmission.extranonce2 sampleSubmission.ntime sampleSubmission.nonce).bind
      decodeHexBlk).getD {}

/-- **One transaction in the template is enough.**  The share is accepted as a block candidate; the
block that is submitted has two transactions and the root of the coinbase alone. -/
theorem oneTransaction_not_assembled :
    validateShareSubmission digitHashes shipped (sampleHistory [sampleTransaction]) sampleClient
        sampleSubmission 1700000010 =
      ⟨true, .blockCandidate, some (sampleJob [sampleTransaction])⟩ ∧
    sampleBlock.vtx.length = 2 ∧
    ¬Assembled digitHashes shipped (sampleTemplate [sampleTransaction]) [sampleTransaction] sampleClient
      (sampleJob [sampleTransaction]) sampleSubmission := by
  refine ⟨by decide +kernel, by decide +kernel, ?_⟩
  rintro ⟨blockHex, block, _, _, _, _, written, decoded, -, -, -, -, root⟩
  have same : sampleBlock = block := by
    rw [sampleBlock, written, Option.bind_some, decoded, Option.getD_some]
  have wrong : sampleBlock.hashMerkleRoot ≠ computeMerkleRoot digitHashes.hash256
      (sampleBlock.vtx.map (CTransaction.getHash digitHashes.hash256)) := by decide +kernel
  rw [same] at wrong
  exact wrong root

end QuantBTC.Pool
