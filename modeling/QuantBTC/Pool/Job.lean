/-
# Pool.Job -- jobs, the hash of a share, and the block made from it

A job is what `template_updater` makes of an answer of `getblocktemplate`.  A miner fills
in the second extranonce, the time and the nonce; `compute_share_hash` hashes the header
that results, `validate_share_submission` judges it, and `_build_block_hex` writes the
block.  A Python exception is `none`.
-/
import QuantBTC.Pool.Coinbase

namespace QuantBTC.Pool

set_option autoImplicit false

open Primitives Theory.Hex

/-! ## Texts -/

def Text.orElse (value default : Text) : Text := if value = [] then default else value

def isHexString (value : Text) (minLen maxLen : Nat) : Bool :=
  minLen ≤ value.length && value.length ≤ maxLen && value.length % 2 == 0 && value.all isDigit

theorem isHexString_bytes {value : Text} {minLen maxLen : Nat}
    (hex : isHexString value minLen maxLen = true) :
    ∃ bytes, fromHex value = some bytes ∧ minLen ≤ 2 * bytes.length ∧
      2 * bytes.length ≤ maxLen ∧ 2 * bytes.length = value.length := by
  simp only [isHexString, Bool.and_eq_true, decide_eq_true_eq, beq_iff_eq] at hex
  grind [fromHex_of_isDigit]

structure Token (width : Nat) where
  bytes : Bytes
  length_bytes : bytes.length = width
deriving DecidableEq

def Token.text {width : Nat} (token : Token width) : Text := toHex token.bytes

/-! ## Templates and jobs -/

structure TemplateTx where
  data : Option Text
deriving DecidableEq, Repr

structure Template where
  previousblockhash : Option Text
  curtime : Option Int
  height : Option Int
  version : Option Int
  bits : Option Text
  defaultWitnessCommitment : Option Text
  coinbasevalue : Option Int
  transactions : List TemplateTx
deriving DecidableEq, Repr

def placeholderCommitment : Text :=
  "6a24aa21a9ed".toList ++ (List.replicate 32 "ee".toList).flatten

def Template.witnessScriptHex (tmpl : Template) : Text :=
  (tmpl.defaultWitnessCommitment.getD []).orElse placeholderCommitment

/-- A job. -/
structure Job where
  jobId : Text
  prevhash : Text
  prevhashRaw : Text
  coinb1 : Text
  coinb2 : Text
  merkleBranches : List Text
  tmpl : Option Template
  version : Text
  nbits : Text
  ntime : Text
  createdAt : Int
deriving DecidableEq, Repr

def stratumPrevhash (prevhash : Text) : Text :=
  [56, 48, 40, 32, 24, 16, 8, 0].flatMap fun i => (prevhash.drop i).take 8

def bootstrapJob (bootstrapTime : Nat) : Job where
  jobId := "bootstrap".toList
  prevhash := List.replicate 64 '0'
  prevhashRaw := List.replicate 64 '0'
  coinb1 := []
  coinb2 := []
  merkleBranches := []
  tmpl := none
  version := "20000000".toList
  nbits := "1d00ffff".toList
  ntime := toHex (leBytes 4 bootstrapTime).reverse
  createdAt := bootstrapTime

def nextJob (settings : Settings) (tmpl : Template) (now : Int) (jobId : Text) : Option Job := do
  let prevhash := tmpl.previousblockhash.getD []
  let ntime ← packUInt 4 (tmpl.curtime.getD now)
  let versionLe ← packUInt 4 (tmpl.version.getD 0)
  let bitsBe := tmpl.bits.getD "1d00ffff".toList
  let parts ← buildCoinbaseParts (tmpl.height.getD 0) (tmpl.coinbasevalue.getD 0)
    tmpl.witnessScriptHex settings.poolMiningScript 8 4
  let nbits ← number bitsBe
  let _ ← packUInt 4 nbits
  some
    { jobId
      prevhash := stratumPrevhash prevhash
      prevhashRaw := prevhash
      coinb1 := parts.1
      coinb2 := parts.2
      merkleBranches := []
      tmpl := some tmpl
      version := toHex versionLe
      nbits := bitsBe
      ntime := toHex ntime
      createdAt := now }

structure Job.Holds (settings : Settings) (tmpl : Template) (values : CoinbaseValues)
    (versionLe : Bytes) (job : Job) : Prop where
  prevhashRaw : job.prevhashRaw = tmpl.previousblockhash.getD []
  merkleBranches : job.merkleBranches = []
  version : job.version = toHex versionLe
  packed : packUInt 4 (tmpl.version.getD 0) = some versionLe
  nbits : job.nbits = tmpl.bits.getD "1d00ffff".toList
  coinb1 : job.coinb1 = toHex (coinb1Bytes values.heightPush 12)
  coinb2 : job.coinb2 =
    toHex (coinb2Bytes values.coinbaseValue values.scriptPubkey values.witnessScript)
  height : heightPush (tmpl.height.getD 0) = some values.heightPush
  value : values.coinbaseValue = tmpl.coinbasevalue.getD 0
  value_int64 : IsInt64 values.coinbaseValue
  script : fromHex settings.poolMiningScript = some values.scriptPubkey
  witnessScript : fromHex tmpl.witnessScriptHex = some values.witnessScript
  ofTemplate : job.tmpl = some tmpl

variable {settings : Settings} {tmpl : Template} {job : Job}

theorem nextJob_eq_some {now : Int} {jobId : Text}
    (built : nextJob settings tmpl now jobId = some job) :
    ∃ values versionLe, job.Holds settings tmpl values versionLe ∧ job.jobId = jobId := by
  obtain ⟨ntime, -, built⟩ := Option.bind_eq_some_iff.mp built
  obtain ⟨versionLe, version, built⟩ := Option.bind_eq_some_iff.mp built
  obtain ⟨parts, builtParts, built⟩ := Option.bind_eq_some_iff.mp built
  obtain ⟨nbits, -, built⟩ := Option.bind_eq_some_iff.mp built
  obtain ⟨_, -, built⟩ := Option.bind_eq_some_iff.mp built
  obtain ⟨values, height, value, fits, script, witnessScript, rfl⟩ :=
    buildCoinbaseParts_eq_some builtParts
  cases built
  exact ⟨values, versionLe, ⟨rfl, rfl, rfl, version, rfl, rfl, rfl, height, value,
    value ▸ fits, script, witnessScript, rfl⟩, rfl⟩

structure Template.IsAnswer (tmpl : Template) (txs : List CTransaction) : Prop where
  previousblockhash : ∃ hash : Bytes, hash.length = 32 ∧ tmpl.previousblockhash = some (toHex hash)
  bits : ∃ text : Text, tmpl.bits = some text ∧ text.length = 8 ∧ text.all isLower = true
  commitment : ∃ script : Bytes, script.length = 38 ∧ tmpl.witnessScriptHex = toHex script
  transactions : tmpl.transactions = txs.map fun tx => { data := some (toHex (tx.serialize true)) }

variable {values : CoinbaseValues} {versionLe : Bytes} {txs : List CTransaction}

theorem Job.Holds.wellFormed (holds : job.Holds settings tmpl values versionLe)
    (answer : tmpl.IsAnswer txs) : values.WellFormed  where
  push_length := (heightPush_height holds.height).2
  value := holds.value_int64
  script_short := settings.poolMiningScript_short _ holds.script
  witnessScript_length := by
    obtain ⟨script, length, text⟩ := answer.commitment
    have read := holds.witnessScript
    rw [text, fromHex_toHex] at read
    rw [← Option.some.inj read, length]

/-! ## The hash of a share -/

def bitsToTarget (bitsHex : Text) : Option Nat :=
  if isHexString bitsHex 8 8 then do
    let bits ← number bitsHex
    let exponent := bits >>> 24
    let mantissa := bits &&& 0xffffff
    some (if exponent ≤ 3 then mantissa >>> (8 * (3 - exponent))
      else mantissa <<< (8 * (exponent - 3)))
  else none

def diff1Target : ℚ := 0x00000000FFFF0000000000000000000000000000000000000000000000000000

def difficultyToTarget (settings : Settings) (difficulty : ℚ) : Nat :=
  max 1 ⌊settings.divide diff1Target (settings.shareDifficulty difficulty)⌋.toNat

def merkleRootAlong (hashes : HashFunctions) (root : Bytes) : List Text → Option Bytes
  | [] => some root
  | branch :: branches => do
      let sibling ← fromHex branch
      merkleRootAlong hashes (sha256d hashes (root ++ sibling)) branches

def coinbaseOf (job : Job) (extranonce1 extranonce2 : Text) : Option Bytes :=
  fromHex (job.coinb1 ++ extranonce1 ++ extranonce2 ++ job.coinb2)

def headerBytes (hashes : HashFunctions) (job : Job) (extranonce1 extranonce2 ntime nonce : Text) :
    Option Bytes := do
  let coinbase ← coinbaseOf job extranonce1 extranonce2
  let merkleRoot ← merkleRootAlong hashes (computeTxid hashes coinbase) job.merkleBranches
  let prevhash ← fromHex (job.prevhashRaw.orElse (List.replicate 64 '0'))
  let version ← fromHex job.version
  let time ← fromHex ntime
  let bits ← number (job.nbits.orElse "1d00ffff".toList)
  let nbits ← packUInt 4 bits
  let nonce ← fromHex nonce
  some (version ++ (prevhash.reverse ++ (merkleRoot ++ (time ++ (nbits ++
    (List.replicate 32 0 ++ nonce))))))

structure Job.Plain (version prevhash nbits : Bytes) (job : Job) : Prop where
  merkleBranches : job.merkleBranches = []
  version : job.version = toHex version ∧ version.length = 4
  prevhashRaw : job.prevhashRaw = toHex prevhash ∧ prevhash.length = 32
  nbits_lower : job.nbits.length = 8 ∧ job.nbits.all isLower = true
  nbits : ∃ bits, number job.nbits = some bits ∧ nbits = leBytes 4 bits ∧ bits < 256 ^ 4

theorem Text.orElse_of_pos {value default : Text} (positive : 0 < value.length) :
    value.orElse default = value := by
  rw [Text.orElse, if_neg (List.length_pos_iff.mp positive)]

structure ShareFields where
  version : Bytes
  prevhash : Bytes
  coinbase : Bytes
  time : Bytes
  nbits : Bytes
  nonce : Bytes
  version_length : version.length = 4
  prevhash_length : prevhash.length = 32
  time_length : time.length = 4
  nbits_length : nbits.length = 4
  nonce_length : nonce.length = 4

def ShareFields.bytes (hashes : HashFunctions) (fields : ShareFields) : Bytes :=
  fields.version ++ (fields.prevhash.reverse ++ (computeTxid hashes fields.coinbase ++
    (fields.time ++ (fields.nbits ++ (List.replicate 32 0 ++ fields.nonce)))))

@[simp] theorem length_sha256d (hashes : HashFunctions) (data : Bytes) :
    (sha256d hashes data).length = 32 := length_uint256Bytes _

variable {hashes : HashFunctions} {extranonce2 : Text}

theorem Job.Plain.headerBytes_eq {version prevhash nbits : Bytes}
    (plain : job.Plain version prevhash nbits) {extranonce1 ntime nonce : Text}
    {coinbase time nonceBytes : Bytes}
    (assembled : coinbaseOf job extranonce1 extranonce2 = some coinbase)
    (readTime : fromHex ntime = some time) (readNonce : fromHex nonce = some nonceBytes) :
    headerBytes hashes job extranonce1 extranonce2 ntime nonce =
      some (version ++ (prevhash.reverse ++ (computeTxid hashes coinbase ++ (time ++ (nbits ++
        (List.replicate 32 0 ++ nonceBytes)))))) := by
  obtain ⟨bits, isBits, rfl, fits⟩ := plain.nbits
  have packed : packUInt 4 bits = some (leBytes 4 bits) := by
    rw [packUInt, if_pos ⟨by omega, by omega⟩, Int.toNat_natCast]
  have prevhashText : job.prevhashRaw.orElse (List.replicate 64 '0') = toHex prevhash := by
    rw [Text.orElse_of_pos, plain.prevhashRaw.1]
    rw [plain.prevhashRaw.1, length_toHex, plain.prevhashRaw.2]
    decide
  have nbitsText : job.nbits.orElse "1d00ffff".toList = job.nbits :=
    Text.orElse_of_pos (by rw [plain.nbits_lower.1]; decide)
  refine Option.bind_eq_some_iff.mpr ⟨coinbase, assembled, ?_⟩
  refine Option.bind_eq_some_iff.mpr ⟨_, by rw [plain.merkleBranches, merkleRootAlong], ?_⟩
  refine Option.bind_eq_some_iff.mpr ⟨prevhash, by rw [prevhashText, fromHex_toHex], ?_⟩
  refine Option.bind_eq_some_iff.mpr ⟨version, by rw [plain.version.1, fromHex_toHex], ?_⟩
  grind

theorem Job.Plain.shareFields (hashes : HashFunctions) {version prevhash nbits : Bytes}
    (plain : job.Plain version prevhash nbits) {extranonce1 ntime nonce : Text} {coinbase : Bytes}
    (assembled : coinbaseOf job extranonce1 extranonce2 = some coinbase)
    (isTime : isHexString ntime 8 8 = true) (isNonce : isHexString nonce 8 8 = true) :
    ∃ fields : ShareFields, fields.version = version ∧ fields.prevhash = prevhash ∧
      fields.coinbase = coinbase ∧ fields.nbits = nbits ∧ fromHex ntime = some fields.time ∧
      fromHex nonce = some fields.nonce ∧
      headerBytes hashes job extranonce1 extranonce2 ntime nonce = some (fields.bytes hashes) := by
  obtain ⟨time, readTime, -, -, timeLength⟩ := isHexString_bytes isTime
  obtain ⟨nonceBytes, readNonce, -, -, nonceLength⟩ := isHexString_bytes isNonce
  have eight {text : Text} (hex : isHexString text 8 8 = true) : text.length = 8 := by
    simp only [isHexString, Bool.and_eq_true, decide_eq_true_eq] at hex
    omega
  have fourTime := eight isTime
  have fourNonce := eight isNonce
  have fourBits : nbits.length = 4 := by
    obtain ⟨bits, -, rfl, -⟩ := plain.nbits
    exact length_leBytes 4 bits
  exact ⟨⟨version, prevhash, coinbase, time, nbits, nonceBytes, plain.version.2,
    plain.prevhashRaw.2, by omega, fourBits, by omega⟩, rfl, rfl, rfl, rfl, readTime, readNonce,
    plain.headerBytes_eq assembled readTime readNonce⟩

theorem number_of_lower {text : Text} (length : text.length = 8)
    (lower : text.all isLower = true) : ∃ bits, number text = some bits ∧ bits < 256 ^ 4 := by
  have digits : text.all isDigit = true := by grind [List.all_eq_true, isDigit_of_isLower]
  obtain ⟨bits, read, small⟩ := numberFrom_of_isDigit digits 0
  grind [number]

theorem Job.Holds.plain (holds : job.Holds settings tmpl values versionLe)
    (answer : tmpl.IsAnswer txs) : ∃ prevhash nbits, job.Plain versionLe prevhash nbits := by
  obtain ⟨prevhash, width, prevhashText⟩ := answer.previousblockhash
  obtain ⟨text, bitsText, length, lower⟩ := answer.bits
  obtain ⟨bits, isBits, small⟩ := number_of_lower length lower
  have nbits : job.nbits = text := by rw [holds.nbits, bitsText, Option.getD_some]
  refine ⟨prevhash, leBytes 4 bits, holds.merkleBranches, ⟨holds.version, ?_⟩, ⟨?_, width⟩, ?_, ?_⟩
  · exact (packUInt_eq_some holds.packed).2.2.1
  · rw [holds.prevhashRaw, prevhashText, Option.getD_some]
  · rw [nbits]
    exact ⟨length, lower⟩
  · rw [nbits]
    exact ⟨bits, isBits, rfl, small⟩

theorem Job.Holds.coinbaseOf_eq (holds : job.Holds settings tmpl values versionLe) (token : Token 8)
    {bytes : Bytes} (read : fromHex extranonce2 = some bytes) :
    coinbaseOf job token.text extranonce2 = some (values.coinbaseBytes (token.bytes ++ bytes)) := by
  have first : fromHex (job.coinb1 ++ token.text) =
      some (coinb1Bytes values.heightPush 12 ++ token.bytes) := by
    rw [holds.coinb1, Token.text, ← toHex_append, fromHex_toHex]
  rw [coinbaseOf, holds.coinb2,
    fromHex_append_eq_some (fromHex_append_eq_some first read) (fromHex_toHex _)]
  simp only [CoinbaseValues.coinbaseBytes, List.append_assoc]

structure PoolClient where
  subscriptionId : Token 8
  authorized : Bool := false
  workerName : Option Text := none
  difficulty : ℚ
deriving DecidableEq

def computeShareHash (hashes : HashFunctions) (settings : Settings) (client : PoolClient)
    (job : Job) (extranonce2 ntime nonce : Text) : Option (Nat × Nat × Bool) := do
  let header ← headerBytes hashes job client.subscriptionId.text extranonce2 ntime nonce
  if header.length = 112 then do
    let shareHash := ofLeBytes (sha256d hashes header)
    let blockTarget ← bitsToTarget (job.nbits.orElse "1d00ffff".toList)
    some (shareHash, difficultyToTarget settings client.difficulty, decide (shareHash ≤ blockTarget))
  else none

variable {client : PoolClient}

theorem computeShareHash_hash {ntime nonce : Text} {shareHash shareTarget : Nat}
    {isBlockCandidate : Bool} {header : Bytes} (computed : computeShareHash hashes settings client
      job extranonce2 ntime nonce = some (shareHash, shareTarget, isBlockCandidate)) (isHeader :
      headerBytes hashes job client.subscriptionId.text extranonce2 ntime nonce = some header) :
    shareHash = ofLeBytes (sha256d hashes header) := by
  rw [computeShareHash, isHeader] at computed
  obtain ⟨_, same, computed⟩ := Option.bind_eq_some_iff.mp computed
  cases same
  split at computed
  next =>
    obtain ⟨target, -, computed⟩ := Option.bind_eq_some_iff.mp computed
    exact (congrArg Prod.fst (Option.some.inj computed)).symm
  next => cases computed

/-! ## The verdict -/

inductive ShareReason
  | unauthorized
  | workerMismatch
  | unknownJob
  | staleJob
  | invalidNonce
  | invalidNtime
  | invalidExtranonce2
  | staleNtime
  | futureNtime
  | hashBuildFailed
  | lowDifficultyShare
  | accepted
  | blockCandidate
deriving DecidableEq, Repr

structure ShareVerdict where
  accepted : Bool
  reason : ShareReason
  job : Option Job
deriving DecidableEq, Repr

structure Submission where
  workerName : Text
  jobId : Text
  extranonce2 : Text
  ntime : Text
  nonce : Text
deriving DecidableEq, Repr

def timeOf (text : Text) : Int := ofLeBytes ((fromHex text).getD [])

def Job.age (job : Job) (now : Int) : Int :=
  now - if job.createdAt = 0 then now else job.createdAt

def validateForJob (hashes : HashFunctions) (settings : Settings) (client : PoolClient) (job : Job)
    (submission : Submission) (now : Int) : ShareVerdict :=
  if settings.maxJobAgeSec < job.age now then ⟨false, .staleJob, job⟩
  else if ¬isHexString submission.nonce 8 8 then ⟨false, .invalidNonce, job⟩
  else if ¬isHexString submission.ntime 8 8 then ⟨false, .invalidNtime, job⟩
  else if submission.extranonce2 ≠ [] ∧ ¬isHexString submission.extranonce2 2 64 then
    ⟨false, .invalidExtranonce2, job⟩
  else if timeOf submission.ntime <
      timeOf (job.ntime.orElse "00000000".toList) - settings.maxJobAgeSec then
    ⟨false, .staleNtime, job⟩
  else if now + settings.maxFutureNtimeDriftSec < timeOf submission.ntime then
    ⟨false, .futureNtime, job⟩
  else
    match computeShareHash hashes settings client job submission.extranonce2 submission.ntime
      submission.nonce with
    | none => ⟨false, .hashBuildFailed, job⟩
    | some (shareHash, shareTarget, isBlockCandidate) =>
      if shareTarget < shareHash then ⟨false, .lowDifficultyShare, job⟩
      else ⟨true, if isBlockCandidate then .blockCandidate else .accepted, job⟩

def validateShareSubmission (hashes : HashFunctions) (settings : Settings)
    (jobHistory : AList fun _ : Text => Job) (client : PoolClient) (submission : Submission)
    (now : Int) : ShareVerdict :=
  if client.authorized = false ∨ client.workerName.getD [] = [] then ⟨false, .unauthorized, none⟩
  else if client.workerName ≠ some submission.workerName then ⟨false, .workerMismatch, none⟩
  else
    match jobHistory.lookup submission.jobId with
    | none => ⟨false, .unknownJob, none⟩
    | some job => validateForJob hashes settings client job submission now

structure Passed (hashes : HashFunctions) (settings : Settings) (client : PoolClient) (job : Job)
    (submission : Submission) (reason : ShareReason) : Prop where
  nonce : isHexString submission.nonce 8 8 = true
  ntime : isHexString submission.ntime 8 8 = true
  extranonce2 : submission.extranonce2 = [] ∨ isHexString submission.extranonce2 2 64 = true
  hash : ∃ shareHash shareTarget isBlockCandidate,
    computeShareHash hashes settings client job submission.extranonce2 submission.ntime
      submission.nonce = some (shareHash, shareTarget, isBlockCandidate) ∧
    shareHash ≤ shareTarget ∧ reason = if isBlockCandidate then .blockCandidate else .accepted

variable {submission : Submission}

theorem validateForJob_accepted {now : Int}
    (accepted : (validateForJob hashes settings client job submission now).accepted = true) :
    Passed hashes settings client job submission
        (validateForJob hashes settings client job submission now).reason ∧
      (validateForJob hashes settings client job submission now).job = some job := by
  unfold validateForJob at accepted ⊢
  split_ifs at accepted ⊢ with _ nonce ntime extranonce2
  split at accepted
  next => cases accepted
  next shareHash shareTarget isBlockCandidate hash =>
    split at accepted
    next => cases accepted
    next meets =>
      rw [if_neg meets]
      have shape : submission.extranonce2 = [] ∨
          isHexString submission.extranonce2 2 64 = true := by
        by_contra neither
        rw [not_or] at neither
        exact extranonce2 neither
      refine ⟨⟨nonce, ntime, shape, ?_⟩, rfl⟩
      exact ⟨shareHash, shareTarget, isBlockCandidate, hash, Nat.not_lt.mp meets, rfl⟩

/-- **What an accepted submission has passed.** -/
theorem validateShareSubmission_accepted {jobHistory : AList fun _ : Text => Job} {now : Int}
      (accepted : (validateShareSubmission hashes settings jobHistory client submission
      now).accepted = true) :
    client.workerName = some submission.workerName ∧
      ∃ job, jobHistory.lookup submission.jobId = some job ∧
        (validateShareSubmission hashes settings jobHistory client submission now).job = some job ∧
        Passed hashes settings client job submission
          (validateShareSubmission hashes settings jobHistory client submission now).reason := by
  unfold validateShareSubmission at accepted ⊢
  split_ifs at accepted ⊢ with _ sameWorker
  cases known : jobHistory.lookup submission.jobId with
  | none =>
    simp [known] at accepted
  | some job =>
    rw [known] at accepted
    grind [validateForJob_accepted]

/-! ## The block -/

def txCountBytes (txCount : Nat) : Option Bytes :=
  if txCount < 0xfd then some [UInt8.ofNat txCount] else (packUInt 2 txCount).map (0xfd :: ·)

def buildBlockHex (hashes : HashFunctions) (job : Job) (extranonce1 extranonce2 ntime nonce : Text) :
    Option Text := do
  let coinbase ← coinbaseOf job extranonce1 extranonce2
  let header ← headerBytes hashes job extranonce1 extranonce2 ntime nonce
  let txs := (job.tmpl.elim [] Template.transactions)
  let count ← txCountBytes (1 + txs.length)
  let data ← txs.mapM fun tx => fromHex (tx.data.getD [])
  some (toHex header ++ toHex [0] ++ toHex (count ++ coinbase ++ data.flatten))

end QuantBTC.Pool
