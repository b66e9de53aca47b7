/-
# Wallet.Sign -- `ProduceSignature`

Signing one input with the keys of a provider: `SignStep` solves a script, and
`ProduceSignature` builds the signature script and the witness and runs the interpreter on
them.  A P2WPKH witness gets post-quantum elements: signature and key where the provider has a
private key and post-quantum signing is on, else the key alone.

Taproot and miniscript are parameters, and so are the signature schemes.  What a
`SignatureData` records of missing keys and scripts and of Taproot keys is left out.
-/
import QuantBTC.Consensus.Subsidy
import QuantBTC.Script.HybridWitness
import QuantBTC.Script.Solver
import QuantBTC.Wallet.Keys

namespace QuantBTC.Wallet

set_option autoImplicit false

open Primitives Script

/-! ## Providers and creators -/

structure FlatSigningProvider where
  /-- by `CScriptID` -/
  scripts : StdMap Bytes Bytes := ∅
  pubkeys : StdMap CKeyID CPubKey := ∅
  /-- the ids of the keys whose origin is known -/
  origins : List CKeyID := []
  keys : StdMap CKeyID CKey := ∅
  pqcKeys : StdMap CKeyID HybridKey := ∅

def PQCConfig.shouldSignPQC (signingOverride : Option Bool) (config : PQCConfig) : Bool :=
  signingOverride.getD config.enableHybridSignatures

structure SignatureData where
  complete : Bool := false
  witness : Bool := false
  scriptSig : Bytes := []
  redeemScript : Bytes := []
  witnessScript : Bytes := []
  scriptWitness : List Bytes := []
  signatures : StdMap CKeyID (CPubKey × Bytes) := ∅
  miscPubkeys : StdMap CKeyID CPubKey := ∅

structure Signer where
  /-- `CKey::Sign` -/
  sign : CKey → Uint256 → Option Bytes
  /-- private key and message -/
  dilithiumSign : Bytes → Bytes → Option Bytes
  falconSign : Bytes → Bytes → Option Bytes
  falcon1024Sign : Bytes → Bytes → Option Bytes
  schemes : Schemes
  checkLowS : Bytes → Bool
  checkTapTweak : Bytes → Bytes → Uint256 → Bool → Bool
  /-- the checks that are neither of ECDSA nor post-quantum -/
  otherChecks : BaseSignatureChecker
  /-- `SignTaproot` of an output key -/
  signTaproot : FlatSigningProvider → SignatureData → Bytes → SignatureData × Option (List Bytes)
  /-- a witness script satisfied as miniscript -/
  satisfyMiniscript : FlatSigningProvider → SignatureData → Bytes → Option (List Bytes)

structure SignatureCreator where
  txTo : CTransaction
  nIn : Nat
  nHashType : Int32
  amount : Int
  txdata : Option PrecomputedTransactionData := none
  inputExists : nIn < txTo.vin.length

variable (crypto : KeyCrypto) (signer : Signer) (provider : FlatSigningProvider) (creator : SignatureCreator)
  (shouldSignPQC : Bool)

namespace SignatureCreator

def hashType : Int32 := if creator.nHashType = 0 then 1 else creator.nHashType

def hashTypeByte : UInt8 := creator.hashType.toUInt32.toUInt8

def sighash (scriptCode : Bytes) (sigversion : SigVersion) : Uint256 :=
  (signatureHash crypto.hashes scriptCode creator.txTo creator.nIn creator.hashType
    creator.amount sigversion creator.txdata).getD 0

def createSig (address : CKeyID) (scriptCode : Bytes) (sigversion : SigVersion) : Option Bytes := do
  let key ← provider.keys.lookup address
  if sigversion = .witnessV0 ∧
      (key.fCompressed = false ∨ creator.amount < 0 ∨ Consensus.maxMoney < creator.amount) then none
  else
    let vchSig ← signer.sign key (creator.sighash crypto scriptCode sigversion)
    some (vchSig ++ [creator.hashTypeByte])

def signPQCMessage (hybridKey : HybridKey) (message : Bytes) : Option Bytes :=
  if hybridKey.mPqcPrivateKey = [] ∨ hybridKey.mPqcPublicKey = [] then none
  else if hybridKey.mPqcPrivateKey.length = 1281 then
    signer.falconSign hybridKey.mPqcPrivateKey message
  else if hybridKey.mPqcPrivateKey.length = 2305 then
    signer.falcon1024Sign hybridKey.mPqcPrivateKey message
  else signer.dilithiumSign hybridKey.mPqcPrivateKey message

def isKnownPQCPubKeySize (size : Nat) : Bool :=
  size == PqcScheme.falcon.publicKeySize || size == PqcScheme.falcon1024.publicKeySize ||
    size == PqcScheme.sphincs.publicKeySize || size == PqcScheme.dilithium.publicKeySize

def createPQCSig (keyid : CKeyID) (scriptCode : Bytes) (sigversion : SigVersion) :
    Option (Bytes × Bytes) :=
  if shouldSignPQC then do
    let hybridKey ← provider.pqcKeys.lookup keyid
    if hybridKey.hasPQCPrivateKey = false ∨ hybridKey.mPqcPublicKey = [] then none
    else
      let pqcSig ← signPQCMessage signer hybridKey
        (uint256Bytes (creator.sighash crypto scriptCode sigversion))
      if isKnownPQCPubKeySize hybridKey.mPqcPublicKey.length then
        some (pqcSig, hybridKey.mPqcPublicKey)
      else none
  else none

def checker : BaseSignatureChecker :=
  let transaction : TransactionSignatureChecker :=
    { txTo := creator.txTo, nIn := creator.nIn, amount := creator.amount, mMdb := .fail
      txdata := creator.txdata }
  { signer.otherChecks with
    checkECDSASignature := transaction.checkECDSASignature crypto.hashes signer.schemes
    checkSPHINCSSignature := transaction.checkSPHINCSSignature crypto.hashes signer.schemes
    checkPQCSignature := transaction.checkPQCSignature crypto.hashes signer.schemes }

end SignatureCreator

def standardScriptVerifyFlags : ScriptFlags :=
  {.p2sh, .derSig, .nullDummy, .checkLockTimeVerify, .checkSequenceVerify, .witness, .taproot, .pqc,
    .strictEnc, .minimalData, .discourageUpgradableNops, .cleanStack, .minimalIf, .nullFail, .lowS,
    .discourageUpgradableWitnessProgram, .witnessPubkeyType, .constScriptCode,
    .discourageUpgradableTaprootVersion, .discourageOpSuccess, .discourageUpgradablePubkeyType}

def SignatureCreator.verifyContext : VerifyContext where
  crypto :=
    { hashes := crypto.hashes
      checkLowS := signer.checkLowS
      checkTapTweak := signer.checkTapTweak }
  checker := creator.checker crypto signer
  flags := standardScriptVerifyFlags

/-! ## Solving a script -/

def emplace {κ ν : Type} [DecidableEq κ] (k : κ) (v : ν) (m : StdMap κ ν) : StdMap κ ν :=
  if k ∈ m then m else m.insert k v

def getCScript (sigdata : SignatureData) (scriptid : Bytes) : Option Bytes :=
  match provider.scripts.lookup scriptid with
  | some script => some script
  | none =>
    if crypto.hashes.hash160 sigdata.redeemScript = scriptid then some sigdata.redeemScript
    else if crypto.hashes.hash160 sigdata.witnessScript = scriptid then
      some sigdata.witnessScript
    else none

def getPubKey (sigdata : SignatureData) (address : CKeyID) : Option CPubKey :=
  match sigdata.signatures.lookup address with
  | some (pubkey, _) => some pubkey
  | none =>
    match sigdata.miscPubkeys.lookup address with
    | some pubkey => some pubkey
    | none => provider.pubkeys.lookup address

def createSig (sigdata : SignatureData) (pubkey : CPubKey) (scriptCode : Bytes)
    (sigversion : SigVersion) : SignatureData × Option Bytes :=
  let keyid := crypto.getID pubkey
  match sigdata.signatures.lookup keyid with
  | some (_, sig) => (sigdata, some sig)
  | none =>
    let sigdata :=
      if keyid ∈ provider.origins then
        { sigdata with miscPubkeys := emplace keyid pubkey sigdata.miscPubkeys }
      else sigdata
    match creator.createSig crypto signer provider keyid scriptCode sigversion with
    | some sig =>
      ({ sigdata with signatures := sigdata.signatures.insert keyid (pubkey, sig) }, some sig)
    | none => (sigdata, none)

structure SignStepResult where
  sigdata : SignatureData
  solved : Bool
  ret : List Bytes
  whichType : TxoutType

def signMultisig (scriptPubKey : Bytes) (sigversion : SigVersion) (required : Nat) :
    List Bytes → SignatureData → List Bytes → SignatureData × List Bytes
  | [], sigdata, ret => (sigdata, ret)
  | key :: keys, sigdata, ret =>
    match CPubKey.ofBytes key with
    | none => signMultisig scriptPubKey sigversion required keys sigdata ret
    | some pubkey =>
      match createSig crypto signer provider creator sigdata pubkey scriptPubKey sigversion with
      | (sigdata, some sig) =>
        signMultisig scriptPubKey sigversion required keys sigdata
          (if ret.length < required + 1 then ret ++ [sig] else ret)
      | (sigdata, none) => signMultisig scriptPubKey sigversion required keys sigdata ret

def signStep (sigdata : SignatureData) (scriptPubKey : Bytes) (sigversion : SigVersion) :
    SignStepResult :=
  match solver scriptPubKey with
  | (.pubkey, [key]) =>
    match CPubKey.ofBytes key with
    | none => ⟨sigdata, false, [], .pubkey⟩
    | some pubkey =>
      match createSig crypto signer provider creator sigdata pubkey scriptPubKey sigversion with
      | (sigdata, some sig) => ⟨sigdata, true, [sig], .pubkey⟩
      | (sigdata, none) => ⟨sigdata, false, [], .pubkey⟩
  | (.pubkeyHash, [keyID]) =>
    match getPubKey provider sigdata keyID with
    | none => ⟨sigdata, false, [], .pubkeyHash⟩
    | some pubkey =>
      match createSig crypto signer provider creator sigdata pubkey scriptPubKey sigversion with
      | (sigdata, some sig) => ⟨sigdata, true, [sig, pubkey.bytes], .pubkeyHash⟩
      | (sigdata, none) => ⟨sigdata, false, [], .pubkeyHash⟩
  | (.scriptHash, [hash]) =>
    match getCScript crypto provider sigdata hash with
    | some script => ⟨sigdata, true, [script], .scriptHash⟩
    | none => ⟨sigdata, false, [], .scriptHash⟩
  | (.multisig, required :: keys) =>
    let required := (required.headD 0).toNat
    let (sigdata, ret) := signMultisig crypto signer provider creator scriptPubKey sigversion required
      keys.dropLast sigdata [[]]
    ⟨sigdata, ret.length == required + 1,
      ret ++ List.replicate (required + 1 - ret.length) [], .multisig⟩
  | (.witnessV0KeyHash, [program]) => ⟨sigdata, true, [program], .witnessV0KeyHash⟩
  | (.witnessV0ScriptHash, [program]) =>
    match getCScript crypto provider sigdata (crypto.hashes.ripemd160 program) with
    | some script => ⟨sigdata, true, [script], .witnessV0ScriptHash⟩
    | none => ⟨sigdata, false, [], .witnessV0ScriptHash⟩
  | (.witnessV1Taproot, [output]) =>
    match signer.signTaproot provider sigdata output with
    | (sigdata, some ret) => ⟨sigdata, true, ret, .witnessV1Taproot⟩
    | (sigdata, none) => ⟨sigdata, false, [], .witnessV1Taproot⟩
  | (.anchor, _) => ⟨sigdata, true, [], .anchor⟩
  | (whichType, _) => ⟨sigdata, false, [], whichType⟩

/-! ## `ProduceSignature` -/

def pushElement (v : Bytes) : Bytes :=
  match v with
  | [] => [0x00]
  | [byte] =>
    if 1 ≤ byte ∧ byte ≤ 16 then [0x50 + byte]
    else if byte = 0x81 then [0x4f]
    else pushData v
  | _ => pushData v

def pushAll (values : List Bytes) : Bytes := values.flatMap pushElement

def pqcElements (keyid : CKeyID) (witnessscript : Bytes) : List Bytes :=
  match creator.createPQCSig crypto signer provider shouldSignPQC keyid witnessscript .witnessV0 with
  | some (pqcSig, pqcPubKey) => [pqcSig, pqcPubKey]
  | none =>
    match provider.pqcKeys.lookup keyid with
    | some hybridKey => if hybridKey.mPqcPublicKey = [] then [] else [hybridKey.mPqcPublicKey]
    | none => []

def keyHashWitness (sub : SignStepResult) (witnessscript : Bytes) : List Bytes :=
  match sub.solved, sub.ret with
  | true, [sig, pubkey] =>
    match CPubKey.ofBytes pubkey with
    | some ecpub =>
      [sig, pubkey] ++ pqcElements crypto signer provider creator shouldSignPQC
        (crypto.getID ecpub) witnessscript
    | none => [sig, pubkey]
  | _, ret => ret

def solveRedeemScript (step : SignStepResult) : SignStepResult × Option Bytes :=
  if step.solved && step.whichType == .scriptHash then
    let subscript := step.ret.headD []
    let sub := signStep crypto signer provider creator { step.sigdata with redeemScript := subscript }
      subscript .base
    ({ sub with solved := sub.solved && sub.whichType != .scriptHash }, some subscript)
  else (step, none)

def solveWitnessScript (sigdata : SignatureData) (witnessscript : Bytes) : SignStepResult :=
  let sub := signStep crypto signer provider creator { sigdata with witnessScript := witnessscript }
    witnessscript .witnessV0
  let solved := sub.solved && sub.whichType != .scriptHash && sub.whichType != .witnessV0ScriptHash &&
    sub.whichType != .witnessV0KeyHash
  if !solved && sub.ret == [] then
    match signer.satisfyMiniscript provider sub.sigdata witnessscript with
    | some ret => { sub with solved := true, ret }
    | none => { sub with solved := false }
  else { sub with solved }

def solveWitnessProgram (step : SignStepResult) (p2sh : Bool) : SignStepResult :=
  if step.solved && step.whichType == .witnessV0KeyHash then
    let witnessscript := keyHashScript (step.ret.headD [])
    let sub := signStep crypto signer provider creator step.sigdata witnessscript .witnessV0
    { sub with
      sigdata :=
        { sub.sigdata with
          scriptWitness := keyHashWitness crypto signer provider creator shouldSignPQC sub witnessscript
          witness := true }
      ret := [] }
  else if step.solved && step.whichType == .witnessV0ScriptHash then
    let witnessscript := step.ret.headD []
    let sub := solveWitnessScript crypto signer provider creator step.sigdata witnessscript
    { sub with
      sigdata :=
        { sub.sigdata with scriptWitness := sub.ret ++ [witnessscript], witness := true }
      ret := [] }
  else if step.whichType == .witnessV1Taproot && !p2sh then
    { step with
      sigdata :=
        { step.sigdata with
          witness := true
          scriptWitness := if step.solved then step.ret else step.sigdata.scriptWitness }
      ret := [] }
  else if step.solved && step.whichType == .witnessUnknown then
    { step with sigdata := { step.sigdata with witness := true } }
  else step

def produceSignature (fromPubKey : Bytes) (sigdata : SignatureData) : SignatureData :=
  if sigdata.complete then sigdata
  else
    let (step, subscript) := solveRedeemScript crypto signer provider creator
      (signStep crypto signer provider creator sigdata fromPubKey .base)
    let step := solveWitnessProgram crypto signer provider creator shouldSignPQC step subscript.isSome
    let scriptWitness := if step.sigdata.witness then step.sigdata.scriptWitness else []
    let scriptSig := pushAll (step.ret ++ subscript.toList)
    { step.sigdata with
      scriptWitness, scriptSig
      complete := step.solved &&
        (verifyScript (creator.verifyContext crypto signer) scriptSig fromPubKey scriptWitness).toBool }

/-! ## What the interpreter asks of a P2WPKH spend -/

section

variable {ctx : VerifyContext} {program : Bytes}

theorem evalScript_payToKeyHash (keyHash : program.length = 20) : ∃ execdata,
    evalScript (ctx.under .base) [] (payToKeyHash program) {} = .ok ([program, []], execdata) := by
  have minimal : checkMinimalPush program (.push 20) = true := by
    simp [checkMinimalPush, keyHash]
  have notTaproot : (ctx.under .base).sigversion ≠ .taproot := by rintro ⟨⟩
  have pushed : getScriptOp (0x14 :: program) = .op (.push 20) program [] := by
    simpa using getScriptOp_push20 keyHash []
  have zero : getScriptOp (0x00 :: 0x14 :: program) = .op (.push 0) [] (0x14 :: program) := by
    have taken : getScriptOp (0x00 :: 0x14 :: program)
        = takeData (.push 0) 0 (0x14 :: program) := rfl
    simp [taken, takeData]
  refine ⟨{ mCodeseparatorPos := some 0xffffffff }, ?_⟩
  rw [payToKeyHash_eq keyHash, evalScript, if_neg notTaproot, List.length_cons, List.length_cons,
    keyHash, evalLoop_push zero rfl rfl (by simp) rfl (by simp),
    evalLoop_push pushed rfl rfl (by omega) minimal (by simp)]
  rfl

theorem verifyScript_payToKeyHash_iff (flags : ctx.flags = standardScriptVerifyFlags)
    (keyHash : program.length = 20) {witness : List Bytes} :
    verifyScript ctx [] (payToKeyHash program) witness = .ok () ↔
      castToBool program = true ∧ KeyHashSpend ctx program witness := by
  obtain ⟨execdata, evaluated⟩ := @evalScript_payToKeyHash ctx program keyHash
  have empty : evalScript (ctx.under .base) [] [] {}
      = .ok ([], { mCodeseparatorPos := some 0xffffffff }) := rfl
  have segwit : .witness ∈ ctx.flags := by
    rw [flags]
    decide
  have p2sh : .p2sh ∈ ctx.flags := by
    rw [flags]
    decide
  have notPushOnly : .sigPushOnly ∉ ctx.flags := by
    rw [flags]
    decide
  rw [← verifyKeyHash_iff keyHash, verifyScript, empty]
  simp only [Outcome.ok_bind, evaluated, Outcome.bind_eq_ok_iff, require_eq_ok_iff, verifyProgramOf,
    if_pos segwit, witnessProgram_payToKeyHash keyHash, verifyWitnessProgram_keyHash ctx keyHash,
    not_isPayToScriptHash_payToKeyHash keyHash]
  constructor
  · rintro ⟨_, -, _, top, _, ⟨_, -, _, spend, -⟩, -⟩
    exact ⟨top, spend⟩
  · rintro ⟨top, spend⟩
    refine ⟨(), by simp [notPushOnly], (), top, _, ⟨(), rfl, (), spend, rfl⟩, ?_⟩
    simp [assertThat, require, p2sh, segwit]

end

/-! ## The witness of a P2WPKH spend -/

section

variable {crypto signer provider creator shouldSignPQC} {program : Bytes} {pubkey : CPubKey}
  {sig : Bytes}

theorem ofBytes_bytes (pubkey : CPubKey) : CPubKey.ofBytes pubkey.bytes = some pubkey := by
  simp [CPubKey.ofBytes, pubkey.valid]

theorem pqcElements_noKey {keyid : CKeyID} {script : Bytes}
    (noKey : provider.pqcKeys.lookup keyid = none) :
    pqcElements crypto signer provider creator shouldSignPQC keyid script = [] := by
  simp [pqcElements, SignatureCreator.createPQCSig, noKey]

theorem createSig_of_new
    (signed : creator.createSig crypto signer provider (crypto.getID pubkey) (keyHashScript program)
      .witnessV0 = some sig) :
    ∃ sigdata, createSig crypto signer provider creator {} pubkey (keyHashScript program) .witnessV0
      = (sigdata, some sig) := by
  unfold createSig
  dsimp only
  rw [AList.lookup_empty, signed]
  exact ⟨_, rfl⟩

variable {sigdata : SignatureData}

theorem solveRedeemScript_payToKeyHash (keyHash : program.length = 20) :
    solveRedeemScript crypto signer provider creator
      (signStep crypto signer provider creator sigdata (payToKeyHash program) .base)
      = (⟨sigdata, true, [program], .witnessV0KeyHash⟩, none) := by
  simp [signStep, solver_payToKeyHash keyHash, solveRedeemScript]

theorem produceSignature_keyHash_eq {sigdata' : SignatureData}
    (unfinished : sigdata.complete = false) (keyHash : program.length = 20)
    (known : getPubKey provider sigdata program = some pubkey) (created : createSig crypto signer
      provider creator sigdata pubkey (keyHashScript program) .witnessV0 = (sigdata', some sig))
    {witness : List Bytes} (elements : [sig, pubkey.bytes] ++ pqcElements crypto signer provider
      creator shouldSignPQC (crypto.getID pubkey) (keyHashScript program) = witness) :
    produceSignature crypto signer provider creator shouldSignPQC (payToKeyHash program) sigdata
      = { sigdata' with
          witness := true
          scriptSig := []
          scriptWitness := witness
          complete := (verifyScript (creator.verifyContext crypto signer) []
            (payToKeyHash program) witness).toBool } := by
  have inner : signStep crypto signer provider creator sigdata (keyHashScript program) .witnessV0
      = ⟨sigdata', true, [sig, pubkey.bytes], .pubkeyHash⟩ := by
    simp [signStep, solver_keyHashScript keyHash, known, created]
  have elements : keyHashWitness crypto signer provider creator shouldSignPQC
      ⟨sigdata', true, [sig, pubkey.bytes], .pubkeyHash⟩ (keyHashScript program) = witness := by
    simpa [keyHashWitness, ofBytes_bytes] using elements
  have solved : solveWitnessProgram crypto signer provider creator shouldSignPQC
      ⟨sigdata, true, [program], .witnessV0KeyHash⟩ false
      = ⟨{ sigdata' with scriptWitness := witness, witness := true }, true, [], .pubkeyHash⟩ := by
    simp [solveWitnessProgram, inner, elements]
  simp [produceSignature, unfinished, solveRedeemScript_payToKeyHash keyHash, solved, pushAll]

theorem produceSignature_keyHash_solved (unfinished : sigdata.complete = false)
    (keyHash : program.length = 20) (complete : (produceSignature crypto signer provider creator
      shouldSignPQC (payToKeyHash program) sigdata).complete = true) :
    ∃ pubkey sigdata' sig, getPubKey provider sigdata program = some pubkey ∧
      createSig crypto signer provider creator sigdata pubkey (keyHashScript program) .witnessV0
        = (sigdata', some sig) := by
  have solved : (signStep crypto signer provider creator sigdata (keyHashScript program)
      .witnessV0).solved = true := by
    simp only [produceSignature, unfinished, Bool.false_eq_true, if_false,
      solveRedeemScript_payToKeyHash keyHash, Bool.and_eq_true] at complete
    exact complete.1
  simp only [signStep, solver_keyHashScript keyHash] at solved
  grind

theorem produceSignature_keyHash (keyHash : program.length = 20)
    (known : provider.pubkeys.lookup program = some pubkey)
    (signed : creator.createSig crypto signer provider (crypto.getID pubkey) (keyHashScript program)
      .witnessV0 = some sig) :
    (produceSignature crypto signer provider creator shouldSignPQC (payToKeyHash program) {}
      ).complete = true ↔
      castToBool program = true ∧
        KeyHashSpend (creator.verifyContext crypto signer) program ([sig, pubkey.bytes] ++
          pqcElements crypto signer provider creator shouldSignPQC (crypto.getID pubkey)
            (keyHashScript program)) := by
  have found : getPubKey provider {} program = some pubkey := known
  obtain ⟨sigdata, created⟩ := createSig_of_new signed
  rw [← verifyScript_payToKeyHash_iff rfl keyHash,
    produceSignature_keyHash_eq rfl keyHash found created rfl]
  cases verifyScript (creator.verifyContext crypto signer) [] (payToKeyHash program) _ with
  | ok value => simp [Except.toBool]
  | error failure => simp [Except.toBool]

end

/-! ## Correct primitives -/

def sighashTypes : List Int32 := [0, 1, 0x81, 2, 0x82, 3, 0x83]

structure SignatureCreator.Standard : Prop where
  hashType : creator.nHashType ∈ sighashTypes
  nonneg : 0 ≤ creator.amount
  moneyRange : creator.amount ≤ Consensus.maxMoney

structure Signer.Signs (hybrid : HybridKey) : Prop where
  priv_ne : hybrid.mPqcPrivateKey ≠ []
  pub_ne : hybrid.mPqcPublicKey ≠ []
  knownSize : SignatureCreator.isKnownPQCPubKeySize hybrid.mPqcPublicKey.length = true
  signs : ∀ message, ∃ pqcSig,
    SignatureCreator.signPQCMessage signer hybrid message = some pqcSig ∧
      isLatticeSized pqcSig hybrid.mPqcPublicKey = true ∧
      TransactionSignatureChecker.verifyPqc signer.schemes pqcSig hybrid.mPqcPublicKey message = true

structure CorrectPair (scheme : PqcScheme) (privateKeySize : Nat)
    (sign : Bytes → Bytes → Option Bytes) (verify : Bytes → Bytes → Bytes → Bool)
    (pqcPub pqcPriv : Bytes) : Prop where
  pubSize : pqcPub.length = scheme.publicKeySize
  privSize : pqcPriv.length = privateKeySize
  nonzero : pqcPub.all (· == 0) = false
  signs : ∀ message, ∃ pqcSig, sign pqcPriv message = some pqcSig ∧
    pqcSig.length = scheme.signatureSize ∧ verify message pqcSig pqcPub = true

structure Signer.Correct : Prop where
  ecdsa : ∀ {key : CKey}, crypto.Valid key → ∀ hash, ∃ sig, signer.sign key hash = some sig ∧
    signer.schemes.ecdsaVerify (crypto.getPubKey key) hash sig = true ∧
    signer.checkLowS sig = true ∧ ∀ byte, isValidSignatureEncoding (sig ++ [byte]) = true
  dilithium : ∀ {seed pqcPub pqcPriv},
    crypto.dilithiumDeriveKeyPair seed = some (pqcPub, pqcPriv) →
    CorrectPair .dilithium 2560 signer.dilithiumSign signer.schemes.dilithiumVerify pqcPub pqcPriv
  falcon : ∀ {seed pqcPub pqcPriv},
    crypto.falconDeriveKeyPair seed = some (pqcPub, pqcPriv) →
    CorrectPair .falcon 1281 signer.falconSign signer.schemes.falconVerify pqcPub pqcPriv

section

variable {crypto signer provider creator shouldSignPQC}

theorem CorrectPair.ne_nil {scheme : PqcScheme} {size : Nat} {sign : Bytes → Bytes → Option Bytes}
    {verify : Bytes → Bytes → Bytes → Bool} {pqcPub pqcPriv : Bytes}
    (pair : CorrectPair scheme size sign verify pqcPub pqcPriv) (positive : 0 < size) :
    pqcPub ≠ [] ∧ pqcPriv ≠ [] := by
  refine ⟨fun empty => ?_, fun empty => ?_⟩
  · have size := pair.pubSize
    rw [empty] at size
    cases scheme <;> cases size
  · have size := pair.privSize
    rw [empty, List.length_nil] at size
    omega

theorem signs_dilithium {pqcPub pqcPriv : Bytes}
    (pair : CorrectPair .dilithium 2560 signer.dilithiumSign signer.schemes.dilithiumVerify pqcPub
      pqcPriv) : signer.Signs ⟨pqcPub, pqcPriv⟩ := by
  obtain ⟨pub_ne, priv_ne⟩ := pair.ne_nil (by decide)
  refine ⟨priv_ne, pub_ne, by simp [SignatureCreator.isKnownPQCPubKeySize, pair.pubSize], ?_⟩
  intro message
  obtain ⟨pqcSig, signed, size, verified⟩ := pair.signs message
  have pubSize : pqcPub.length = 1312 := pair.pubSize
  have sigSize : pqcSig.length = 2420 := size
  refine ⟨pqcSig, ?_, ?_, ?_⟩
  · simp [SignatureCreator.signPQCMessage, priv_ne, pub_ne, pair.privSize, signed]
  · simp [isLatticeSized, PqcScheme.sizesMatch, PqcScheme.signatureSize, PqcScheme.publicKeySize,
      sigSize, pubSize]
  · simp [TransactionSignatureChecker.verifyPqc, PqcScheme.sizesMatch, PqcScheme.signatureSize,
      PqcScheme.publicKeySize, sigSize, pubSize, verified]

theorem signs_falcon {pqcPub pqcPriv : Bytes}
    (pair : CorrectPair .falcon 1281 signer.falconSign signer.schemes.falconVerify pqcPub pqcPriv) :
    signer.Signs ⟨pqcPub, pqcPriv⟩ := by
  obtain ⟨pub_ne, priv_ne⟩ := pair.ne_nil (by decide)
  refine ⟨priv_ne, pub_ne, by simp [SignatureCreator.isKnownPQCPubKeySize, pair.pubSize], ?_⟩
  intro message
  obtain ⟨pqcSig, signed, size, verified⟩ := pair.signs message
  have sized : PqcScheme.falcon.sizesMatch pqcSig pqcPub = true := by
    simp [PqcScheme.sizesMatch, size, pair.pubSize]
  refine ⟨pqcSig, ?_, ?_, ?_⟩
  · simp [SignatureCreator.signPQCMessage, priv_ne, pub_ne, pair.privSize, signed]
  · simp [isLatticeSized, sized]
  · simp [TransactionSignatureChecker.verifyPqc, sized, verified]

namespace SignatureCreator

theorem Standard.hashTypeOf_byte (standard : creator.Standard) :
    TransactionSignatureChecker.hashTypeOf creator.hashTypeByte = creator.hashType := by
  have known : sighashTypes.all (fun nHashType => TransactionSignatureChecker.hashTypeOf
      (if nHashType = 0 then (1 : Int32) else nHashType).toUInt32.toUInt8
        = if nHashType = 0 then 1 else nHashType) = true := by decide +kernel
  exact of_decide_eq_true (List.all_eq_true.mp known _ standard.hashType)

theorem Standard.definedHashtype (standard : creator.Standard) (sig : Bytes) :
    isDefinedHashtypeSignature (sig ++ [creator.hashTypeByte]) = true := by
  have known : sighashTypes.all (fun nHashType => isDefinedHashtypeSignature
      [(if nHashType = 0 then (1 : Int32) else nHashType).toUInt32.toUInt8]) = true := by
    decide +kernel
  have last : isDefinedHashtypeSignature (sig ++ [creator.hashTypeByte])
      = isDefinedHashtypeSignature [creator.hashTypeByte] := by
    simp [isDefinedHashtypeSignature]
  rw [last]
  exact List.all_eq_true.mp known _ standard.hashType

theorem signatureHash_eq (scriptCode : Bytes) (sigversion : SigVersion) :
    signatureHash crypto.hashes scriptCode creator.txTo creator.nIn creator.hashType creator.amount
      sigversion creator.txdata = some (creator.sighash crypto scriptCode sigversion) := by
  obtain ⟨txin, input⟩ : ∃ txin, creator.txTo.vin[creator.nIn]? = some txin :=
    ⟨_, List.getElem?_eq_getElem creator.inputExists⟩
  grind [sighash, signatureHash]

theorem Standard.verifySighash_eq (standard : creator.Standard) (scriptCode : Bytes)
    (verify : Uint256 → Bool) :
    TransactionSignatureChecker.verifySighash crypto.hashes
      { txTo := creator.txTo, nIn := creator.nIn, amount := creator.amount, mMdb := .fail
        txdata := creator.txdata } scriptCode .witnessV0
      (TransactionSignatureChecker.hashTypeOf creator.hashTypeByte) verify
      = some (verify (creator.sighash crypto scriptCode .witnessV0)) := by
  have known : ¬ creator.amount < 0 := not_lt.mpr standard.nonneg
  rw [TransactionSignatureChecker.verifySighash, if_neg fun missing => known missing.2,
    standard.hashTypeOf_byte, signatureHash_eq]
  rfl

end SignatureCreator

theorem isCompressedPubKey_bytes {pubkey : CPubKey} (compressed : isCompressed pubkey = true) :
    isCompressedPubKey pubkey.bytes = true ∧
      isCompressedOrUncompressedPubKey pubkey.bytes = true := by
  obtain ⟨bytes, valid⟩ := pubkey
  cases bytes with
  | nil => cases valid
  | cons header rest =>
    have size : rest.length + 1 = 33 := by simpa [isCompressed] using compressed
    have header_eq : header = 2 ∨ header = 3 := by
      by_contra other
      simp [pubKeyValidSize, pubKeyLen, other, size] at valid
      split at valid <;> omega
    rcases header_eq with rfl | rfl
    all_goals simp [isCompressedPubKey, isCompressedOrUncompressedPubKey, size]

theorem length_of_validEncoding {sig : Bytes} (valid : isValidSignatureEncoding sig = true) :
    sig.length ≤ 73 := by
  simp only [isValidSignatureEncoding, Bool.and_eq_true, decide_eq_true_eq] at valid
  tauto

variable {key : CKey} {program : Bytes}

theorem createSig_verified (correct : signer.Correct crypto) (standard : creator.Standard)
    (valid : crypto.Valid key) (compressed : key.fCompressed = true)
    (secret : provider.keys.lookup (crypto.getID (crypto.getPubKey key)) = some key) :
    ∃ sig, creator.createSig crypto signer provider (crypto.getID (crypto.getPubKey key))
        (keyHashScript program) .witnessV0 = some sig ∧
      sig ≠ [] ∧ sig.length ≤ 520 ∧ sig.getLastD 0 = creator.hashTypeByte ∧
      EcdsaVerified (creator.verifyContext crypto signer) program sig (crypto.getPubKey key).bytes := by
  obtain ⟨sig, signed, verified, lowS, encoded⟩ := correct.ecdsa valid
    (creator.sighash crypto (keyHashScript program) .witnessV0)
  have allowed : ¬ (key.fCompressed = false ∨ creator.amount < 0 ∨
      Consensus.maxMoney < creator.amount) := by
    have nonneg := standard.nonneg
    have moneyRange := standard.moneyRange
    grind
  have short : sig.length + 1 ≤ 73 := by simpa using length_of_validEncoding (encoded 0)
  obtain ⟨compressedKey, wellFormed⟩ :=
    isCompressedPubKey_bytes (valid.compressed.trans compressed)
  refine ⟨sig ++ [creator.hashTypeByte], ?_, by simp, by simp; omega, by simp, ?_, ?_, ?_⟩
  · simp only [SignatureCreator.createSig, secret, Option.bind_eq_bind, Option.bind_some,
      signed]
    rw [if_neg fun refused => allowed refused.2]
  · simp [checkSignatureEncoding, encoded, SignatureCreator.verifyContext, lowS,
      standard.definedHashtype]
  · simp [checkPubKeyEncoding, compressedKey, wellFormed]
  · show TransactionSignatureChecker.checkECDSASignature _ _ _ _ _ _ _ = _
    simp only [TransactionSignatureChecker.checkECDSASignature, ofBytes_bytes,
      List.getLast?_append, List.getLast?_singleton, Option.some_or, List.dropLast_concat]
    rw [standard.verifySighash_eq, verified]

theorem createPQCSig_verified (standard : creator.Standard) {keyid : CKeyID} {hybrid : HybridKey}
    (stored : provider.pqcKeys.lookup keyid = some hybrid) (signs : signer.Signs hybrid)
    {sig : Bytes} (hashType : sig.getLastD 0 = creator.hashTypeByte) :
    ∃ pqcSig, creator.createPQCSig crypto signer provider true keyid (keyHashScript program)
        .witnessV0 = some (pqcSig, hybrid.mPqcPublicKey) ∧
      isLatticeSized pqcSig hybrid.mPqcPublicKey = true ∧
      checkPqc (creator.verifyContext crypto signer) program sig pqcSig hybrid.mPqcPublicKey
        = some true := by
  obtain ⟨pqcSig, signed, sized, verified⟩ := signs.signs
    (uint256Bytes (creator.sighash crypto (keyHashScript program) .witnessV0))
  refine ⟨pqcSig, ?_, sized, ?_⟩
  · simp [SignatureCreator.createPQCSig, stored, HybridKey.hasPQCPrivateKey, signs.priv_ne,
      signs.pub_ne, signed, signs.knownSize]
  · rw [checkPqc, if_pos sized, hashType]
    show TransactionSignatureChecker.checkPQCSignature _ _ _ _ _ _ _ _ = _
    rw [TransactionSignatureChecker.checkPQCSignature, standard.verifySighash_eq, verified]

theorem produceSignature_complete_iff (correct : signer.Correct crypto)
    (standard : creator.Standard) (valid : crypto.Valid key) (compressed : key.fCompressed = true)
    (keyHash : program.length = 20)
    (known : provider.pubkeys.lookup program = some (crypto.getPubKey key))
    (secret : provider.keys.lookup (crypto.getID (crypto.getPubKey key)) = some key)
    {pqcKey : Option HybridKey}
    (stored : provider.pqcKeys.lookup (crypto.getID (crypto.getPubKey key)) = pqcKey)
    (signs : ∀ hybrid ∈ pqcKey, signer.Signs hybrid) :
    (produceSignature crypto signer provider creator shouldSignPQC (payToKeyHash program) {}
      ).complete = true ↔ castToBool program = true ∧
        match pqcKey with
        | none => crypto.getID (crypto.getPubKey key) = program
        | some hybrid =>
          crypto.hashes.hash160 ((crypto.getPubKey key).bytes ++ hybrid.mPqcPublicKey) = program ∨
            shouldSignPQC = true ∧ crypto.getID (crypto.getPubKey key) = program := by
  obtain ⟨sig, signed, sig_ne, short, hashType, ecdsa⟩ :=
    @createSig_verified crypto signer provider creator key program correct standard valid compressed
      secret
  have size : (crypto.getPubKey key).bytes.length = 33 := by
    simpa [isCompressed] using valid.compressed.trans compressed
  have pubkey_ne : (crypto.getPubKey key).bytes ≠ [] := List.ne_nil_of_length_pos (by omega)
  have optional : .hybridSig ∉ (creator.verifyContext crypto signer).flags := by
    show _ ∉ standardScriptVerifyFlags
    decide
  have shortKey : sig.length ≤ 520 ∧ (crypto.getPubKey key).bytes.length ≤ 520 := by omega
  rw [produceSignature_keyHash keyHash known signed]
  refine and_congr_right fun _ => ?_
  cases pqcKey with
  | none =>
    rw [pqcElements_noKey stored, List.append_nil]
    constructor
    · intro spend
      cases spend with
      | classical _ _ legacy _ => exact beq_iff_eq.mp legacy
    · intro legacy
      exact .classical optional shortKey (beq_iff_eq.mpr legacy) ecdsa
  | some hybrid =>
    have signs := signs hybrid rfl
    cases shouldSignPQC with
    | false =>
      have keyOnly : pqcElements crypto signer provider creator false
          (crypto.getID (crypto.getPubKey key)) (keyHashScript program)
          = [hybrid.mPqcPublicKey] := by
        simp [pqcElements, SignatureCreator.createPQCSig, stored, signs.pub_ne]
      rw [keyOnly]
      constructor
      · intro spend
        cases spend with
        | keyOnly _ _ both _ => exact .inl (beq_iff_eq.mp both)
      · rintro (both | ⟨off, -⟩)
        · exact .keyOnly sig_ne pubkey_ne (beq_iff_eq.mpr both) ecdsa
        · cases off
    | true =>
      obtain ⟨pqcSig, created, sized, verified⟩ :=
        @createPQCSig_verified crypto signer provider creator program standard _ hybrid stored
          signs sig hashType
      have full : pqcElements crypto signer provider creator true
          (crypto.getID (crypto.getPubKey key)) (keyHashScript program)
          = [pqcSig, hybrid.mPqcPublicKey] := by
        simp [pqcElements, created]
      have pqc : PqcVerified (creator.verifyContext crypto signer) program sig
          (crypto.getPubKey key).bytes pqcSig hybrid.mPqcPublicKey :=
        ⟨by simp [sized], sig_ne, pubkey_ne, verified⟩
      rw [full]
      constructor
      · intro spend
        cases spend with
        | hybrid _ both _ => exact .inl (beq_iff_eq.mp both)
        | legacy _ _ _ _ legacy _ => exact .inr ⟨rfl, beq_iff_eq.mp legacy⟩
      · intro address
        by_cases both : crypto.hashes.hash160
            ((crypto.getPubKey key).bytes ++ hybrid.mPqcPublicKey) = program
        · exact .hybrid pqc (beq_iff_eq.mpr both) ecdsa
        · have legacy := (address.resolve_left both).2
          exact .legacy pqc (beq_eq_false_iff_ne.mpr both) optional shortKey
            (beq_iff_eq.mpr legacy) ecdsa

end

end QuantBTC.Wallet
