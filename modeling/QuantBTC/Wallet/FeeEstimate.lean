/-
# Wallet.FeeEstimate -- the size a transaction is estimated to have, and the one it is signed with

`CreateTransactionInternal` asks `WPKHDescriptor` for the largest witness of each input before it
signs.  The answer is read off the configuration alone: whether hybrid signatures are enabled, and
the scheme that is preferred.  The override of the transaction is put in place later, for the
signing, and the witness is made with the post-quantum key that is stored.
-/
import QuantBTC.Primitives.BlockBody
import QuantBTC.Wallet.Spendable

namespace QuantBTC.Wallet

set_option autoImplicit false

open Primitives Script

/-! ## The estimate -/

def getPQCSigAndPubKeySizes : PQCSignatureScheme → Nat × Nat
  | .falcon => (PqcScheme.falcon.signatureSize, PqcScheme.falcon.publicKeySize)
  | .falcon1024 => (PqcScheme.falcon1024.signatureSize, PqcScheme.falcon1024.publicKeySize)
  | .sphincsPlus => (PqcScheme.sphincs.signatureSize, PqcScheme.sphincs.publicKeySize)
  | .dilithium => (PqcScheme.dilithium.signatureSize, PqcScheme.dilithium.publicKeySize)

def elementSize (size : Nat) : Nat := (if size < 253 then 1 else 3) + size

namespace PQCConfig

variable (config : PQCConfig) (signingOverride : Option Bool)

def maxPqcSize : Nat :=
  let (pqcSigSize, pqcPkSize) := getPQCSigAndPubKeySizes config.preferredSigScheme
  if config.shouldSignPQC signingOverride then elementSize pqcSigSize + elementSize pqcPkSize
  else if config.enableHybridSignatures then elementSize pqcPkSize
  else 0

def maxSatSize (useMaxSig : Bool) : Nat :=
  1 + (if useMaxSig then 72 else 71) + 1 + 33 + config.maxPqcSize signingOverride

def maxSatisfactionElems : Nat :=
  if config.shouldSignPQC signingOverride then 4
  else if config.enableHybridSignatures then 3
  else 2

def maxInputWeight (useMaxSig : Bool) : Nat :=
  (32 + 4 + 4 + 1) * 4 + (writeCompactSize (config.maxSatisfactionElems signingOverride)).length +
    config.maxSatSize signingOverride useMaxSig

def calculateMaximumSignedTxWeight (useMaxSig : Bool) (tx : CTransaction) : Nat :=
  (4 + 4 + (writeCompactSize tx.vin.length).length + (writeCompactSize tx.vout.length).length) * 4 +
    (if tx.vin = [] then 0 else 2) + (tx.vout.map fun txo => txo.serialize.length * 4).sum +
    (tx.vin.map fun _ => config.maxInputWeight signingOverride useMaxSig).sum

end PQCConfig

def getTransactionWeight (tx : CTransaction) : Nat :=
  (tx.serialize false).length * 3 + (tx.serialize true).length

def getVirtualTransactionSize (weight : Nat) : Nat := (weight + 3) / 4

def getFee (nSatoshisPerK : Int) (size : Nat) : Int :=
  let fee := -(-(nSatoshisPerK * size) / 1000)
  if fee = 0 ∧ size ≠ 0 then nSatoshisPerK.sign else fee

def feeNeeded (config : PQCConfig) (useMaxSig : Bool) (rate totalBumpFees : Int)
    (tx : CTransaction) : Int :=
  getFee rate (getVirtualTransactionSize
    (config.calculateMaximumSignedTxWeight none useMaxSig tx)) + totalBumpFees

def withWitnesses (tx : CTransaction) (witnesses : List (List Bytes)) : CTransaction :=
  { tx with
    vin := tx.vin.zipWith (fun txin scriptWitness => { txin with scriptSig := [], scriptWitness })
      witnesses }

def witnessSize (witness : List Bytes) : Nat := (witness.flatMap vectorBytes).length

/-! ## Sizes -/

theorem length_vectorBytes {bytes : Bytes} (short : bytes.length ≤ 0xffff) :
    (vectorBytes bytes).length = elementSize bytes.length := by
  simp only [vectorBytes, writeCompactSize, elementSize]
  split_ifs
  · simp
  · simp
    omega

theorem getFee_mono {rate : Int} (nonneg : 0 ≤ rate) {size size' : Nat} (le : size ≤ size') :
    getFee rate size ≤ getFee rate size' := by
  have product : rate * size ≤ rate * size' := mul_le_mul_of_nonneg_left (by omega) nonneg
  have positive : 0 ≤ rate * size := mul_nonneg nonneg (by omega)
  rcases nonneg.eq_or_lt with rfl | above
  · simp [getFee]
  · have sign : rate.sign = 1 := Int.sign_eq_one_of_pos above
    simp only [getFee, sign]
    split_ifs <;> omega

def Within (config : PQCConfig) (useMaxSig : Bool) (witness : List Bytes) : Prop :=
  witnessSize witness ≤ config.maxSatSize none useMaxSig ∧
    witness.length ≤ config.maxSatisfactionElems none

theorem length_writeCompactSize_elems {n : Nat} (few : n < 253) : (writeCompactSize n).length = 1 := by
  simp [writeCompactSize, few]

variable {useMaxSig : Bool}

theorem Within.length_witnessBytes {config : PQCConfig} {witness : List Bytes}
    (within : Within config useMaxSig witness) :
    (vectorOf vectorBytes witness).length + 164 ≤ config.maxInputWeight none useMaxSig := by
  have few : config.maxSatisfactionElems none ≤ 4 := by
    unfold PQCConfig.maxSatisfactionElems
    split_ifs <;> decide
  have size := within.1
  have elems := within.2
  unfold witnessSize at size
  simp only [vectorOf, List.length_append, PQCConfig.maxInputWeight,
    length_writeCompactSize_elems (show witness.length < 253 by omega),
    length_writeCompactSize_elems (show config.maxSatisfactionElems none < 253 by omega)]
  omega

variable {witnesses : List (List Bytes)}

theorem length_inputs {config : PQCConfig} {vin : List CTxIn} (one : witnesses.length = vin.length)
    (within : ∀ witness ∈ witnesses, Within config useMaxSig witness) :
    let signed := vin.zipWith (fun txin scriptWitness => { txin with scriptSig := [], scriptWitness })
      witnesses
    (signed.flatMap CTxIn.serialize).length * 4 + (signed.flatMap CTxIn.witnessBytes).length
      ≤ (vin.map fun _ => config.maxInputWeight none useMaxSig).sum := by
  induction vin generalizing witnesses with
  | nil => simp
  | cons txin vin ih =>
    obtain - | ⟨witness, witnesses⟩ := witnesses
    · cases one
    · have rest := ih (by simpa using one) fun witness listed => within witness (.tail _ listed)
      have first := (within witness (.head _)).length_witnessBytes
      have bare : (CTxIn.serialize { txin with scriptSig := [], scriptWitness := witness }).length
          = 41 := by
        simp [CTxIn.serialize, COutPoint.serialize, vectorBytes, uint32Bytes,
          length_writeCompactSize_elems]
      simp only [List.zipWith_cons_cons, List.flatMap_cons, List.length_append, bare,
        CTxIn.witnessBytes, List.map_cons, List.sum_cons] at rest ⊢
      omega

theorem getTransactionWeight_le {config : PQCConfig} {tx : CTransaction}
    (one : witnesses.length = tx.vin.length)
    (within : ∀ witness ∈ witnesses, Within config useMaxSig witness) :
    getTransactionWeight (withWitnesses tx witnesses)
      ≤ config.calculateMaximumSignedTxWeight none useMaxSig tx := by
  have inputs := length_inputs one within
  have outputs : (tx.vout.map fun txo => txo.serialize.length * 4).sum
      = (tx.vout.flatMap CTxOut.serialize).length * 4 := by
    rw [List.sum_map_mul_right, List.length_flatMap]
  have count : (withWitnesses tx witnesses).vin.length = tx.vin.length := by
    simp [withWitnesses, one]
  have marked : (withWitnesses tx witnesses).hasWitness = true → tx.vin ≠ [] := by
    rintro has empty
    simp [withWitnesses, CTransaction.hasWitness, empty] at has
  simp only [getTransactionWeight, CTransaction.serialize, PQCConfig.calculateMaximumSignedTxWeight,
    vectorOf, List.length_append, count, outputs]
  cases has : (withWitnesses tx witnesses).hasWitness with
  | false =>
    simp [withWitnesses, uint32Bytes] at inputs ⊢
    split_ifs <;> omega
  | true =>
    simp [withWitnesses, uint32Bytes, marked has, length_writeCompactSize_elems] at inputs ⊢
    omega

/-! ## The witnesses of a wallet -/

variable {crypto : KeyCrypto} {signer : Signer}

def Signer.Grinds (signer : Signer) : Prop :=
  ∀ {key : CKey} {hash : Uint256} {sig : Bytes}, signer.sign key hash = some sig → sig.length ≤ 70

variable {provider : FlatSigningProvider} {creator : SignatureCreator}

theorem Signer.Grinds.length_createSig (grinds : signer.Grinds) {sigdata : SignatureData}
    {pubkey : CPubKey} {script sig : Bytes} {sigversion : SigVersion} (created : createSig crypto
      signer provider creator {} pubkey script sigversion = (sigdata, some sig)) :
    sig.length ≤ 71 := by
  simp only [createSig, AList.lookup_empty] at created
  split at created
  next made =>
    obtain ⟨-, same⟩ := Prod.mk.inj created
    obtain rfl := Option.some.inj same
    simp only [SignatureCreator.createSig, Option.bind_eq_bind, Option.bind_eq_some_iff] at made
    obtain ⟨key, -, made⟩ := made
    split at made
    · cases made
    · obtain ⟨vchSig, signed, made⟩ := Option.bind_eq_some_iff.mp made
      have short := grinds signed
      rw [← Option.some.inj made, List.length_append, List.length_singleton]
      omega
  · cases created

def latticeSigSize (pubkeySize : Nat) : Nat :=
  if pubkeySize = PqcScheme.falcon.publicKeySize then PqcScheme.falcon.signatureSize
  else if pubkeySize = PqcScheme.falcon1024.publicKeySize then PqcScheme.falcon1024.signatureSize
  else PqcScheme.dilithium.signatureSize

def PQCConfig.coversKey (config : PQCConfig) (signingOverride : Option Bool) (pqcPub : Bytes) : Bool :=
  config.enableHybridSignatures && decide
    ((if config.shouldSignPQC signingOverride then elementSize (latticeSigSize pqcPub.length) else 0) +
      elementSize pqcPub.length ≤ config.maxPqcSize none)

theorem witnessSize_cons {element : Bytes} {witness : List Bytes} (short : element.length ≤ 0xffff) :
    witnessSize (element :: witness) = elementSize element.length + witnessSize witness := by
  simp [witnessSize, length_vectorBytes short]

theorem maxPqcSize_gap (scheme : PQCSignatureScheme) {size : Nat}
    (lattice : size = 897 ∨ size = 1793 ∨ size = 1312) (sign : Bool) :
    let added := (if sign then elementSize (latticeSigSize size) else 0) + elementSize size
    added ≤ PQCConfig.maxPqcSize ⟨true, scheme⟩ none ∨
      PQCConfig.maxPqcSize ⟨true, scheme⟩ none + 72 < added := by
  rcases lattice with rfl | rfl | rfl
  all_goals cases scheme <;> cases sign <;> decide

theorem size_pqcElements (standard : creator.Standard) {program : Bytes} {keyid : CKeyID}
    {hybrid : HybridKey} (stored : provider.pqcKeys.lookup keyid = some hybrid)
    (signs : signer.Signs hybrid) (sign : Bool) : let size := hybrid.mPqcPublicKey.length
    let added := pqcElements crypto signer provider creator sign keyid (keyHashScript program)
    (size = 897 ∨ size = 1793 ∨ size = 1312) ∧ added.length = (if sign then 2 else 1) ∧
      witnessSize added
        = (if sign then elementSize (latticeSigSize size) else 0) + elementSize size := by
  obtain ⟨pqcSig, made, sized, -⟩ := @createPQCSig_verified crypto signer provider creator program
    standard _ _ stored signs [_] rfl
  have sizes : (pqcSig.length = 666 ∧ hybrid.mPqcPublicKey.length = 897) ∨
      (pqcSig.length = 1280 ∧ hybrid.mPqcPublicKey.length = 1793) ∨
      (pqcSig.length = 2420 ∧ hybrid.mPqcPublicKey.length = 1312) := by
    simpa [isLatticeSized, PqcScheme.sizesMatch, PqcScheme.signatureSize, PqcScheme.publicKeySize,
      or_assoc] using sized
  have sigSize : pqcSig.length = latticeSigSize hybrid.mPqcPublicKey.length := by
    rcases sizes with ⟨sig, pub⟩ | ⟨sig, pub⟩ | ⟨sig, pub⟩
    all_goals rw [sig, pub]; rfl
  have keySize : witnessSize [hybrid.mPqcPublicKey] = elementSize hybrid.mPqcPublicKey.length := by
    rw [witnessSize_cons (by omega)]
    rfl
  refine ⟨by omega, ?_⟩
  cases sign with
  | false =>
    have keyOnly : pqcElements crypto signer provider creator false keyid (keyHashScript program)
        = [hybrid.mPqcPublicKey] := by
      simp [pqcElements, SignatureCreator.createPQCSig, stored, signs.pub_ne]
    rw [keyOnly, keySize]
    exact ⟨rfl, (Nat.zero_add _).symm⟩
  | true =>
    have full : pqcElements crypto signer provider creator true keyid (keyHashScript program)
        = [pqcSig, hybrid.mPqcPublicKey] := by
      rw [pqcElements, made]
    rw [full, witnessSize_cons (by omega), keySize, sigSize]
    exact ⟨rfl, rfl⟩

theorem within_iff (standard : creator.Standard) {program sig pubkey : Bytes}
    (short : sig.length ≤ 71) (compressed : pubkey.length = 33) {keyid : CKeyID}
    {pqcKey : Option HybridKey} (stored : provider.pqcKeys.lookup keyid = pqcKey)
    (signs : ∀ hybrid ∈ pqcKey, signer.Signs hybrid) (config : PQCConfig) (usePqc : Option Bool)
    (useMaxSig : Bool) :
    Within config useMaxSig ([sig, pubkey] ++ pqcElements crypto signer provider creator
        (config.shouldSignPQC usePqc) keyid (keyHashScript program)) ↔
      ∀ hybrid ∈ pqcKey, config.coversKey usePqc hybrid.mPqcPublicKey = true := by
  have ecdsa (rest : List Bytes) :
      witnessSize ([sig, pubkey] ++ rest) = sig.length + 35 + witnessSize rest := by
    rw [List.cons_append, witnessSize_cons (by omega), List.cons_append,
      witnessSize_cons (by omega), compressed, elementSize, if_pos (by omega)]
    simp [elementSize]
    omega
  have bound : 106 + config.maxPqcSize none ≤ config.maxSatSize none useMaxSig ∧
      config.maxSatSize none useMaxSig ≤ 107 + config.maxPqcSize none := by
    unfold PQCConfig.maxSatSize
    split_ifs <;> omega
  cases pqcKey with
  | none =>
    rw [pqcElements_noKey stored, Within, ecdsa]
    have elems : 2 ≤ config.maxSatisfactionElems none := by
      unfold PQCConfig.maxSatisfactionElems
      split_ifs <;> omega
    refine ⟨fun _ => nofun, fun _ => ⟨?_, elems⟩⟩
    rw [show witnessSize [] = 0 from rfl]
    omega
  | some hybrid =>
    obtain ⟨lattice, count, size⟩ := @size_pqcElements crypto signer provider creator standard program
      keyid hybrid stored (signs hybrid rfl) (config.shouldSignPQC usePqc)
    have gap := maxPqcSize_gap config.preferredSigScheme lattice (config.shouldSignPQC usePqc)
    rw [Within, ecdsa, List.length_append, count, size]
    obtain ⟨enabled, preferred⟩ := config
    cases enabled with
    | false =>
      have two : PQCConfig.maxSatisfactionElems ⟨false, preferred⟩ none = 2 := rfl
      rw [two]
      refine ⟨fun within => absurd within.2 ?_, fun covers => absurd (covers hybrid rfl) (by
        simp [PQCConfig.coversKey])⟩
      split_ifs <;> simp
    | true =>
      have four : PQCConfig.maxSatisfactionElems ⟨true, preferred⟩ none = 4 := rfl
      have few : 2 + (if PQCConfig.shouldSignPQC usePqc ⟨true, preferred⟩ = true then 2 else 1) ≤ 4 := by
        split_ifs <;> omega
      simp only [Option.mem_def, Option.some.injEq, forall_eq', PQCConfig.coversKey, Bool.true_and,
        decide_eq_true_eq, four]
      dsimp only at gap
      generalize (if PQCConfig.shouldSignPQC usePqc ⟨true, preferred⟩ = true then
        elementSize (latticeSigSize hybrid.mPqcPublicKey.length) else 0) = sigSize at gap ⊢
      constructor
      · rintro ⟨fits, -⟩
        omega
      · intro covers
        exact ⟨by omega, few⟩

namespace SpkMan

variable {Cache : Type} {env : WalletEnv Cache} {masterKey : Bytes} {root : CKey}
  {child : Nat → CKey} {w : SpkMan Cache}

variable (signer env w) in
def Makes (config : PQCConfig) (usePqc : Option Bool) (program : Bytes) (witness : List Bytes) : Prop :=
  program.length = 20 ∧ w.isMine (payToKeyHash program) = true ∧
    ∃ provider creator, w.getSigningProvider env (payToKeyHash program) true = some provider ∧
      creator.Standard ∧
      let sigdata := produceSignature env.crypto signer provider creator
        (config.shouldSignPQC usePqc) (payToKeyHash program) {}
      sigdata.complete = true ∧ sigdata.scriptWitness = witness

variable (env w) in
def Covered (config : PQCConfig) (usePqc : Option Bool) (program : Bytes) : Prop :=
  ∀ i ∈ w.mMapScriptPubKeys.lookup (payToKeyHash program), ∀ pubkey ∈ env.desc.pubkeys i,
    ∀ pqcPub ∈ w.pqcPubkeyOf (env.crypto.getID pubkey), config.coversKey usePqc pqcPub = true

/-- **What the fee estimate covers.**  In every reachable, unlocked state of a `wpkh()` wallet with
private keys, for every configuration and override,

* a witness the wallet makes is within the bounds of the estimate exactly when the estimate allows
  for the key that is stored for the script;
* a transaction with such witnesses, whose fee was checked against the estimate, pays its rate. -/
theorem estimate_covers_iff (wpkh : Wpkh env child masterKey root)
    (correct : signer.Correct env.crypto) (grinds : signer.Grinds)
    (reachable : Reachable env masterKey (· = root) w) (unlocked : w.isLocked = false)
    (havePrivate : w.havePrivateKeys = true) (config : PQCConfig) (usePqc : Option Bool)
    (useMaxSig : Bool) :
    (∀ program witness, w.Makes signer env config usePqc program witness →
      (Within config useMaxSig witness ↔ w.Covered env config usePqc program)) ∧
    ∀ (tx : CTransaction) (spent : List (Bytes × List Bytes)), spent.length = tx.vin.length →
      (∀ input ∈ spent, w.Makes signer env config usePqc input.1 input.2 ∧
        w.Covered env config usePqc input.1) →
      ∀ {rate totalBumpFees fee : Int}, 0 ≤ rate → 0 ≤ totalBumpFees →
        feeNeeded config useMaxSig rate totalBumpFees tx ≤ fee →
        getFee rate (getVirtualTransactionSize (getTransactionWeight
          (withWitnesses tx (spent.map (·.2))))) ≤ fee := by
  have one (program : Bytes) (witness : List Bytes)
      (makes : w.Makes signer env config usePqc program witness) :
      Within config useMaxSig witness ↔ w.Covered env config usePqc program := by
    obtain ⟨keyHash, mine, provider, creator, provides, standard, complete, rfl⟩ := makes
    obtain ⟨i, provider', pqcKey, found, provides', known, -, stored, signs, pub, -⟩ :=
      ownKeyHash wpkh correct reachable unlocked havePrivate keyHash mine
    obtain rfl := Option.some.inj (provides.symm.trans provides')
    obtain ⟨pubkey, sigdata, sig, known', created⟩ :=
      produceSignature_keyHash_solved rfl keyHash complete
    obtain rfl : pubkey = pubkeyAt env child i := Option.some.inj (known'.symm.trans known)
    have size : (env.crypto.getPubKey (child i)).bytes.length = 33 := by
      simpa [isCompressed] using (wpkh.valid i).compressed.trans (wpkh.compressed i)
    have pub : w.pqcPubkeyOf (env.crypto.getID (pubkeyAt env child i))
        = pqcKey.map HybridKey.mPqcPublicKey := pub
    rw [produceSignature_keyHash_eq rfl keyHash known' created rfl]
    refine (within_iff standard (grinds.length_createSig created) size stored signs config usePqc
      useMaxSig).trans ?_
    simp [Covered, found, wpkh.pubkeys, pub]
  refine ⟨one, fun tx spent count made rate totalBumpFees fee nonneg bump checked => ?_⟩
  have within : ∀ witness ∈ spent.map (·.2), Within config useMaxSig witness := by
    intro witness listed
    obtain ⟨input, mem, rfl⟩ := List.mem_map.mp listed
    obtain ⟨makes, covered⟩ := made input mem
    exact (one _ _ makes).mpr covered
  have weight := getTransactionWeight_le (by simpa using count) within
  have size : getVirtualTransactionSize (getTransactionWeight (withWitnesses tx (spent.map (·.2))))
      ≤ getVirtualTransactionSize (config.calculateMaximumSignedTxWeight none useMaxSig tx) :=
    Nat.div_le_div_right (by omega)
  have least := getFee_mono nonneg size
  unfold feeNeeded at checked
  omega

def sampleWitness (config : PQCConfig) (usePqc : Option Bool) : Option SignatureData :=
  (falconWallet.getSigningProvider sizedEnv (payToKeyHash plainProgram) true).map fun provider =>
    produceSignature sizedCrypto sizedSigner provider oneInput (config.shouldSignPQC usePqc)
      (payToKeyHash plainProgram) {}

theorem makes_sampleWitness {config : PQCConfig} {usePqc : Option Bool} {sigdata : SignatureData}
    (made : sampleWitness config usePqc = some sigdata) (complete : sigdata.complete = true) :
    falconWallet.Makes sizedSigner sizedEnv config usePqc plainProgram sigdata.scriptWitness := by
  obtain ⟨provider, provides, rfl⟩ := Option.map_eq_some_iff.mp made
  exact ⟨by decide +kernel, by decide +kernel, provider, oneInput, provides, oneInput_standard,
    complete, rfl⟩

/-- A wallet of Falcon keys under the configuration it was created with. -/
theorem estimate_covers_falconWallet :
    ∃ witness, falconWallet.Makes sizedSigner sizedEnv falconConfig none plainProgram witness ∧
      Within falconConfig false witness := by
  have made : (sampleWitness falconConfig none).map (·.complete) = some true := by decide +kernel
  obtain ⟨sigdata, made, complete⟩ := Option.map_eq_some_iff.mp made
  have makes := makes_sampleWitness made complete
  refine ⟨_, makes, ((estimate_covers_iff sizedEnv_wpkh sizedSigner_correct ?_
    falconWallet_reachable (by decide +kernel) (by decide +kernel) falconConfig none false).1 _ _
    makes).mpr ?_⟩
  · rintro _ _ sig signed
    rw [← Option.some.inj signed]
    decide
  · unfold Covered
    decide +kernel

/-- **An estimate that is too small**: hybrid signatures are disabled, and the override of the
transaction turns post-quantum signing on.  Four elements are signed where two were allowed for, and
the fee that was checked is below that of the rate. -/
theorem override_exceeds_estimate :
    (sampleWitness classicalConfig (some true)).map (fun sigdata =>
      (sigdata.complete, sigdata.scriptWitness.length, witnessSize sigdata.scriptWitness,
        getFee 1000 (getVirtualTransactionSize (getTransactionWeight
          (withWitnesses oneInput.txTo [sigdata.scriptWitness])))))
      = some (true, 4, 1613, 465) ∧
    classicalConfig.maxSatisfactionElems none = 2 ∧ classicalConfig.maxSatSize none true = 107 ∧
    feeNeeded classicalConfig true 1000 0 oneInput.txTo = 89 := by
  decide +kernel

end SpkMan

end QuantBTC.Wallet
