/-
# Wallet.Psbt -- signing a partially signed transaction in two steps

`SignPSBTInput` either finishes an input or keeps what it has as partial signatures, and
`FinalizePSBT` makes the witness later from these, without keys.  A partial signature is kept under
the id of the ECDSA key, and nothing of the post-quantum key is kept.
-/
import QuantBTC.Primitives.BlockBody
import QuantBTC.Wallet.Spendable

namespace QuantBTC.Wallet

set_option autoImplicit false

open Primitives Script

/-! ## The inputs -/

structure PSBTInput where
  nonWitnessUtxo : Option CTransaction := none
  witnessUtxo : CTxOut := {}
  redeemScript : Bytes := []
  witnessScript : Bytes := []
  finalScriptSig : Bytes := []
  finalScriptWitness : List Bytes := []
  /-- the keys of `hd_keypaths` -/
  hdKeypaths : List CPubKey := []
  partialSigs : StdMap CKeyID (CPubKey × Bytes) := ∅

abbrev PSBTInputs (tx : CTransaction) := Fin tx.vin.length → PSBTInput

namespace PSBTInput

def fillSignatureData (crypto : KeyCrypto) (input : PSBTInput) : SignatureData :=
  if input.finalScriptSig ≠ [] ∨ input.finalScriptWitness ≠ [] then
    { scriptSig := input.finalScriptSig, scriptWitness := input.finalScriptWitness, complete := true }
  else
    { signatures := input.partialSigs
      redeemScript := input.redeemScript
      witnessScript := input.witnessScript
      miscPubkeys := input.hdKeypaths.foldl
        (fun known pubkey => emplace (crypto.getID pubkey) pubkey known) ∅ }

def fromSignatureData (sigdata : SignatureData) (input : PSBTInput) : PSBTInput :=
  if sigdata.complete then
    { input with
      partialSigs := ∅
      hdKeypaths := []
      redeemScript := []
      witnessScript := []
      finalScriptSig := if sigdata.scriptSig = [] then input.finalScriptSig else sigdata.scriptSig
      finalScriptWitness :=
        if sigdata.scriptWitness = [] then input.finalScriptWitness else sigdata.scriptWitness }
  else
    { input with
      -- what is there already is kept
      partialSigs := input.partialSigs ∪ sigdata.signatures
      redeemScript := if input.redeemScript = [] then sigdata.redeemScript else input.redeemScript
      witnessScript := if input.witnessScript = [] then sigdata.witnessScript else input.witnessScript
      hdKeypaths := sigdata.miscPubkeys.entries.foldl
        (fun known entry => if entry.2 ∈ known then known else known ++ [entry.2]) input.hdKeypaths }

def recordSignatures (utxo : CTxOut) (requireWitnessSig finalize : Bool) (sigdata : SignatureData)
    (input : PSBTInput) : PSBTInput × Bool :=
  if requireWitnessSig && !sigdata.witness then (input, false)
  else
    -- without `complete` the final witness is not set
    let signed := input.fromSignatureData
      (if finalize then sigdata else { sigdata with complete := false })
    (if sigdata.witness then { signed with witnessUtxo := utxo } else signed, sigdata.complete)

def utxo (hashes : HashFunctions) (prevout : COutPoint) (input : PSBTInput) :
    Option (CTxOut × Bool) :=
  match input.nonWitnessUtxo with
  | some prev =>
    match prev.vout[prevout.n.toNat]? with
    | none => none
    | some txout => if prev.getHash hashes.hash256 = prevout.hash then some (txout, false) else none
  | none => if input.witnessUtxo.nValue = -1 then none else some (input.witnessUtxo, true)

end PSBTInput

def hidingSigningProvider (hideSecret hideOrigin : Bool) (provider : FlatSigningProvider) :
    FlatSigningProvider :=
  { provider with
    keys := if hideSecret then ∅ else provider.keys
    origins := if hideOrigin then [] else provider.origins
    pqcKeys := ∅ }

/-! ## Signing -/

section

variable (crypto : KeyCrypto) (signer : Signer) (shouldSignPQC : Bool) {tx : CTransaction}

def psbtCreator (index : Fin tx.vin.length) (amount : Int) (sighash : Int32) : SignatureCreator where
  txTo := tx
  nIn := index
  nHashType := sighash
  amount := amount
  txdata := some (.init crypto.hashes tx)
  inputExists := index.2

def psbtInputSignedAndVerified (index : Fin tx.vin.length) (input : PSBTInput) : Bool :=
  match input.utxo crypto.hashes (tx.vin.get index).prevout with
  | none => false
  | some (utxo, _) =>
    (verifyScript ((psbtCreator crypto index utxo.nValue 1).verifyContext crypto signer)
      input.finalScriptSig utxo.scriptPubKey input.finalScriptWitness).toBool

variable (provider : FlatSigningProvider) (sighash : Int32) (finalize : Bool)

def signInput (index : Fin tx.vin.length) (input : PSBTInput) : PSBTInput × Bool :=
  if psbtInputSignedAndVerified crypto signer index input then (input, true)
  else
    match input.utxo crypto.hashes (tx.vin.get index).prevout with
    | none => (input, false)
    | some (utxo, requireWitnessSig) =>
      input.recordSignatures utxo requireWitnessSig finalize
        (produceSignature crypto signer provider (psbtCreator crypto index utxo.nValue sighash)
          shouldSignPQC utxo.scriptPubKey (input.fillSignatureData crypto))

def signPSBTInput (inputs : PSBTInputs tx) (index : Fin tx.vin.length) : PSBTInputs tx × Bool :=
  let (input, complete) := signInput crypto signer shouldSignPQC provider sighash finalize index
    (inputs index)
  (Function.update inputs index input, complete)

def finalizePSBT (inputs : PSBTInputs tx) : PSBTInputs tx × Bool :=
  (List.finRange tx.vin.length).foldl (fun (inputs, complete) index =>
    let (inputs, signed) := signPSBTInput crypto signer shouldSignPQC {} 1 true inputs index
    (inputs, complete && signed)) (inputs, true)

def signThenFinalize (inputs : PSBTInputs tx) (index : Fin tx.vin.length) : PSBTInput :=
  (finalizePSBT crypto signer shouldSignPQC
    (signPSBTInput crypto signer shouldSignPQC provider sighash false inputs index).1).1 index

def KeepsWitness (inputs : PSBTInputs tx) (index : Fin tx.vin.length) : Prop :=
  let oneStep := (signPSBTInput crypto signer shouldSignPQC provider sighash true inputs index).1 index
  let twoSteps := signThenFinalize crypto signer shouldSignPQC provider sighash inputs index
  psbtInputSignedAndVerified crypto signer index twoSteps = true ∧
    (oneStep.finalScriptWitness.length = 4 → twoSteps.finalScriptWitness.length = 4)

end

/-! ## One input of a P2WPKH output -/

section

variable {crypto : KeyCrypto} {signer : Signer} {shouldSignPQC : Bool} {tx : CTransaction}
  {provider : FlatSigningProvider} {sighash : Int32} {finalize : Bool} {index : Fin tx.vin.length}
  {program : Bytes} {input : PSBTInput} {utxo : CTxOut} {witnessOnly : Bool}

theorem finalizePSBT_input (inputs : PSBTInputs tx) (index : Fin tx.vin.length) :
    (finalizePSBT crypto signer shouldSignPQC inputs).1 index
      = (signInput crypto signer shouldSignPQC {} 1 true index (inputs index)).1 := by
  have loop (indices : List (Fin tx.vin.length)) (nodup : indices.Nodup) (inputs : PSBTInputs tx)
      (complete : Bool) : (indices.foldl (fun (inputs, complete) index =>
        let (inputs, signed) := signPSBTInput crypto signer shouldSignPQC {} 1 true inputs index
        (inputs, complete && signed)) (inputs, complete)).1 index
      = if index ∈ indices then
          (signInput crypto signer shouldSignPQC {} 1 true index (inputs index)).1
        else inputs index := by
    induction indices generalizing inputs complete with
    | nil => rfl
    | cons first rest ih =>
      obtain ⟨fresh, nodup⟩ := List.nodup_cons.mp nodup
      rw [List.foldl_cons, ih nodup]
      by_cases here : index = first
      · subst here
        simp [fresh, signPSBTInput]
      · simp [here, signPSBTInput]
  rw [finalizePSBT, loop _ (List.nodup_finRange _), if_pos (List.mem_finRange _)]

theorem lookup_createSig {creator : SignatureCreator} {sigdata sigdata' : SignatureData}
    {pubkey : CPubKey} {script sig : Bytes} {sigversion : SigVersion}
    (created : createSig crypto signer provider creator sigdata pubkey script sigversion
      = (sigdata', some sig)) (unsigned : sigdata.signatures = ∅) :
    sigdata'.signatures.lookup (crypto.getID pubkey) = some (pubkey, sig) := by
  simp only [createSig, unsigned, AList.lookup_empty] at created
  split at created
  · obtain ⟨rfl, same⟩ := Prod.mk.inj created
    rw [Option.some.inj same]
    exact AList.lookup_insert _
  · cases created

namespace PSBTInput

variable (tx index program input utxo witnessOnly) in
structure Spends (hashes : HashFunctions) : Prop where
  spent : input.utxo hashes (tx.vin.get index).prevout = some (utxo, witnessOnly)
  script : utxo.scriptPubKey = payToKeyHash program
  keyHash : program.length = 20
  scriptSig : input.finalScriptSig = []
  witness : input.finalScriptWitness = []

variable (spends : Spends tx index program input utxo witnessOnly crypto.hashes)

include spends

theorem Spends.not_verified : psbtInputSignedAndVerified crypto signer index input = false := by
  rw [psbtInputSignedAndVerified, spends.spent]
  dsimp only
  rw [spends.script, spends.scriptSig, spends.witness]
  cases verified : verifyScript ((psbtCreator crypto index utxo.nValue 1).verifyContext crypto
    signer) [] (payToKeyHash program) [] with
  | error failure => rfl
  | ok value => cases ((verifyScript_payToKeyHash_iff rfl spends.keyHash).mp verified).2

theorem Spends.fill_complete : (input.fillSignatureData crypto).complete = false := by
  simp [fillSignatureData, spends.scriptSig, spends.witness]

theorem Spends.fill_signatures : (input.fillSignatureData crypto).signatures = input.partialSigs := by
  simp [fillSignatureData, spends.scriptSig, spends.witness]

theorem Spends.signInput_eq :
    signInput crypto signer shouldSignPQC provider sighash finalize index input
      = input.recordSignatures utxo witnessOnly finalize
        (produceSignature crypto signer provider (psbtCreator crypto index utxo.nValue sighash)
          shouldSignPQC (payToKeyHash program) (input.fillSignatureData crypto)) := by
  rw [signInput, spends.not_verified, if_neg Bool.false_ne_true, spends.spent]
  dsimp only
  rw [spends.script]

theorem Spends.completed
    (complete : (signInput crypto signer shouldSignPQC provider sighash finalize index input).2
      = true) :
    ∃ pubkey sigdata sig, getPubKey provider (input.fillSignatureData crypto) program = some pubkey ∧
      createSig crypto signer provider (psbtCreator crypto index utxo.nValue sighash)
        (input.fillSignatureData crypto) pubkey (keyHashScript program) .witnessV0
        = (sigdata, some sig) ∧
      ∃ witness, [sig, pubkey.bytes] ++ pqcElements crypto signer provider
          (psbtCreator crypto index utxo.nValue sighash) shouldSignPQC (crypto.getID pubkey)
          (keyHashScript program) = witness ∧
        verifyScript ((psbtCreator crypto index utxo.nValue 1).verifyContext crypto signer) []
          (payToKeyHash program) witness = .ok () ∧
        ∀ finalize, (signInput crypto signer shouldSignPQC provider sighash finalize index input).1
          = { input.fromSignatureData { sigdata with
                witness := true, scriptSig := [], scriptWitness := witness, complete := finalize }
              with witnessUtxo := utxo } := by
  rw [spends.signInput_eq] at complete
  have done : (produceSignature crypto signer provider (psbtCreator crypto index utxo.nValue sighash)
      shouldSignPQC (payToKeyHash program) (input.fillSignatureData crypto)).complete = true := by
    unfold recordSignatures at complete
    split at complete
    · cases complete
    · exact complete
  obtain ⟨pubkey, sigdata, sig, known, created⟩ :=
    produceSignature_keyHash_solved spends.fill_complete spends.keyHash done
  obtain ⟨witness, elements⟩ : ∃ witness, [sig, pubkey.bytes] ++ pqcElements crypto signer provider
      (psbtCreator crypto index utxo.nValue sighash) shouldSignPQC (crypto.getID pubkey)
      (keyHashScript program) = witness := ⟨_, rfl⟩
  have produced := produceSignature_keyHash_eq spends.fill_complete spends.keyHash known created
    elements
  rw [produced] at done
  have accepted := eq_ok_of_toBool done ()
  refine ⟨pubkey, sigdata, sig, known, created, witness, elements, accepted, fun finalize => ?_⟩
  rw [spends.signInput_eq, produced, accepted]
  cases finalize <;> simp [recordSignatures, Except.toBool]

theorem Spends.kept
    (complete : (signInput crypto signer shouldSignPQC provider sighash true index input).2 = true) :
    Spends tx index program
      (signInput crypto signer shouldSignPQC provider sighash false index input).1 utxo witnessOnly
      crypto.hashes := by
  obtain ⟨_, _, _, _, _, _, _, _, signed⟩ := spends.completed complete
  rw [signed]
  have spent := spends.spent
  refine ⟨?_, spends.script, spends.keyHash, spends.scriptSig, spends.witness⟩
  simp only [PSBTInput.utxo, fromSignatureData] at spent ⊢
  grind

theorem Spends.length_finalized :
    (signInput crypto signer shouldSignPQC {} 1 true index input).1.finalScriptWitness.length ≤ 2 := by
  cases complete : (signInput crypto signer shouldSignPQC {} 1 true index input).2 with
  | true =>
    obtain ⟨pubkey, sigdata, sig, -, -, witness, elements, -, signed⟩ := spends.completed complete
    rw [pqcElements_noKey (AList.lookup_empty _), List.append_nil] at elements
    rw [signed, ← elements]
    simp [fromSignatureData]
  | false =>
    rw [spends.signInput_eq] at complete ⊢
    have unchanged := spends.witness
    simp only [recordSignatures, fromSignatureData] at complete ⊢
    grind

theorem Spends.keepsWitness (unsigned : input.partialSigs = ∅)
    (complete : (signInput crypto signer shouldSignPQC provider sighash true index input).2 = true)
    (noKey : ∀ pubkey, getPubKey provider (input.fillSignatureData crypto) program = some pubkey →
      provider.pqcKeys.lookup (crypto.getID pubkey) = none) :
    let kept := (signInput crypto signer shouldSignPQC provider sighash false index input).1
    let final := (signInput crypto signer shouldSignPQC {} 1 true index kept).1
    psbtInputSignedAndVerified crypto signer index final = true ∧
      final.finalScriptWitness = (signInput crypto signer shouldSignPQC provider sighash true index
        input).1.finalScriptWitness := by
  obtain ⟨pubkey, sigdata, sig, known, created, witness, elements, accepted, signed⟩ :=
    spends.completed complete
  rw [pqcElements_noKey (noKey pubkey known), List.append_nil] at elements
  subst elements
  -- a witness of two elements spends the hash of its key
  have own : crypto.getID pubkey = program := by
    cases ((verifyScript_payToKeyHash_iff rfl spends.keyHash).mp accepted).2 with
    | classical _ _ legacy _ => exact beq_iff_eq.mp legacy
  have kept := spends.kept complete
  have found : (signInput crypto signer shouldSignPQC provider sighash false index input
      ).1.partialSigs.lookup program = some (pubkey, sig) := by
    have signatures := lookup_createSig created (spends.fill_signatures.trans unsigned)
    rw [own] at signatures
    simp [signed, fromSignatureData, unsigned, signatures]
  generalize (signInput crypto signer shouldSignPQC provider sighash false index input).1 = first
    at kept found
  have again : createSig crypto signer {} (psbtCreator crypto index utxo.nValue 1)
      (first.fillSignatureData crypto) pubkey (keyHashScript program) .witnessV0
      = (first.fillSignatureData crypto, some sig) := by
    have found : first.partialSigs.lookup (crypto.getID pubkey) = some (pubkey, sig) := by rwa [own]
    simp [createSig, kept.fill_signatures, found]
  have found' : getPubKey {} (first.fillSignatureData crypto) program = some pubkey := by
    simp [getPubKey, kept.fill_signatures, found]
  have elements : [sig, pubkey.bytes] ++ pqcElements crypto signer {}
      (psbtCreator crypto index utxo.nValue 1) shouldSignPQC (crypto.getID pubkey)
      (keyHashScript program) = [sig, pubkey.bytes] := by
    rw [pqcElements_noKey (AList.lookup_empty _), List.append_nil]
  have produced := produceSignature_keyHash_eq kept.fill_complete kept.keyHash found' again elements
  have final : (signInput crypto signer shouldSignPQC {} 1 true index first).1
      = { first.fromSignatureData { first.fillSignatureData crypto with
            witness := true, scriptSig := [], scriptWitness := [sig, pubkey.bytes], complete := true }
          with witnessUtxo := utxo } := by
    rw [kept.signInput_eq, produced, accepted]
    simp [recordSignatures, Except.toBool]
  have spent := kept.spent
  have noSig := kept.scriptSig
  dsimp only
  rw [final, signed]
  refine ⟨?_, by simp [fromSignatureData]⟩
  have same : PSBTInput.utxo crypto.hashes (tx.vin.get index).prevout
      { first.fromSignatureData { first.fillSignatureData crypto with
            witness := true, scriptSig := [], scriptWitness := [sig, pubkey.bytes], complete := true }
          with witnessUtxo := utxo } = some (utxo, witnessOnly) := by
    simp only [PSBTInput.utxo, fromSignatureData] at spent ⊢
    grind
  rw [psbtInputSignedAndVerified, same]
  simp [fromSignatureData, noSig, kept.script, accepted, Except.toBool]

end PSBTInput

end

/-! ## The inputs of a wallet -/

namespace SpkMan

variable {Cache : Type} {env : WalletEnv Cache} {masterKey : Bytes} {root : CKey}
  {child : Nat → CKey} {signer : Signer} {w : SpkMan Cache} {program : Bytes}

open PSBTInput

theorem mem_hdKeypaths {input : PSBTInput} {pubkey : CPubKey} {keyid : CKeyID}
    (known : (input.fillSignatureData env.crypto).miscPubkeys.lookup keyid = some pubkey) :
    pubkey ∈ input.hdKeypaths ∧ env.crypto.getID pubkey = keyid := by
  have all : Theory.Maps.AllEntries
      (fun keyid pubkey => pubkey ∈ input.hdKeypaths ∧ env.crypto.getID pubkey = keyid)
      (input.fillSignatureData env.crypto).miscPubkeys := by
    unfold fillSignatureData
    split
    · exact .empty
    · refine List.foldlRecOn _ _ .empty fun known all pubkey listed => ?_
      unfold emplace
      split
      · exact all
      · exact all.insert ⟨listed, rfl⟩
  exact all _ _ known

/-- **Signing in two steps.**  In every reachable, unlocked state of a `wpkh()` wallet with private
keys, for every input that spends a P2WPKH script of it and that nobody has signed,

* when the wallet's provider completes the input in one step with post-quantum signing on, the two
  steps keep the witness exactly when no post-quantum key is stored for the index;
* when the provider `FillPSBT` passes completes the input, the two steps do. -/
theorem signThenFinalize_iff (wpkh : Wpkh env child masterKey root)
    (correct : signer.Correct env.crypto) (reachable : Reachable env masterKey (· = root) w)
    (unlocked : w.isLocked = false) (havePrivate : w.havePrivateKeys = true)
    (mine : w.isMine (payToKeyHash program) = true) {tx : CTransaction} {inputs : PSBTInputs tx}
    {index : Fin tx.vin.length} {utxo : CTxOut} {witnessOnly : Bool}
    (spends : Spends tx index program (inputs index) utxo witnessOnly env.crypto.hashes)
    (unsigned : (inputs index).partialSigs = ∅)
    (paths : ∀ pubkey ∈ (inputs index).hdKeypaths, env.crypto.getID pubkey = program →
      ∀ i ∈ w.mMapScriptPubKeys.lookup (payToKeyHash program), pubkey ∈ env.desc.pubkeys i)
    {sighash : Int32} (standard : (psbtCreator env.crypto index utxo.nValue sighash).Standard) :
    ∃ provider, w.getSigningProvider env (payToKeyHash program) true = some provider ∧
      ((signPSBTInput env.crypto signer true provider sighash true inputs index).2 = true →
        (KeepsWitness env.crypto signer true provider sighash inputs index ↔
          ∀ i ∈ w.mMapScriptPubKeys.lookup (payToKeyHash program),
            ∀ pubkey ∈ env.desc.pubkeys i, w.pqcPubkeyOf (env.crypto.getID pubkey) = none)) ∧
      ∀ shouldSignPQC hideOrigin,
        (signPSBTInput env.crypto signer shouldSignPQC
          (hidingSigningProvider false hideOrigin provider) sighash true inputs index).2 = true →
        KeepsWitness env.crypto signer shouldSignPQC
          (hidingSigningProvider false hideOrigin provider) sighash inputs index := by
  obtain ⟨i, provider, pqcKey, found, provides, known, secret, stored, signs, pub, address⟩ :=
    ownKeyHash wpkh correct reachable unlocked havePrivate spends.keyHash mine
  have own {pubkey : CPubKey} (given : getPubKey provider ((inputs index).fillSignatureData env.crypto)
      program = some pubkey) : pubkey = pubkeyAt env child i := by
    rw [getPubKey, spends.fill_signatures, unsigned, AList.lookup_empty] at given
    dsimp only at given
    split at given
    next listed found' =>
      obtain ⟨mem, id⟩ := mem_hdKeypaths found'
      have listed := paths _ mem id i found
      rw [wpkh.pubkeys, List.mem_singleton] at listed
      exact (Option.some.inj given).symm.trans listed
    · exact Option.some.inj (given.symm.trans known)
  have twoSteps {shouldSignPQC : Bool} {provider : FlatSigningProvider} :
      signThenFinalize env.crypto signer shouldSignPQC provider sighash inputs index
        = (signInput env.crypto signer shouldSignPQC {} 1 true index (signInput env.crypto signer
          shouldSignPQC provider sighash false index (inputs index)).1).1 := by
    rw [signThenFinalize, finalizePSBT_input]
    simp [signPSBTInput]
  have keeps {shouldSignPQC : Bool} {provider : FlatSigningProvider}
      (complete : (signPSBTInput env.crypto signer shouldSignPQC provider sighash true inputs index
        ).2 = true)
      (noKey : ∀ pubkey, getPubKey provider ((inputs index).fillSignatureData env.crypto) program
        = some pubkey → provider.pqcKeys.lookup (env.crypto.getID pubkey) = none) :
      KeepsWitness env.crypto signer shouldSignPQC provider sighash inputs index := by
    obtain ⟨verified, same⟩ := spends.keepsWitness unsigned complete noKey
    rw [KeepsWitness, twoSteps]
    exact ⟨verified, fun four => by rw [same]; simpa [signPSBTInput] using four⟩
  refine ⟨provider, provides, fun complete => ?_, fun shouldSignPQC hideOrigin complete =>
    keeps complete fun _ _ => AList.lookup_empty _⟩
  have noKey : (∀ i ∈ w.mMapScriptPubKeys.lookup (payToKeyHash program),
      ∀ pubkey ∈ env.desc.pubkeys i, w.pqcPubkeyOf (env.crypto.getID pubkey) = none) ↔
      pqcKey = none := by
    have pub : w.pqcPubkeyOf (env.crypto.getID (pubkeyAt env child i))
      = pqcKey.map HybridKey.mPqcPublicKey := pub
    simp [found, wpkh.pubkeys, pub]
  rw [noKey]
  constructor
  · rintro ⟨-, carries⟩
    cases pqcKey with
    | none => rfl
    | some hybrid =>
      obtain ⟨pubkey, sigdata, sig, given, created, witness, elements, -, signed⟩ :=
        spends.completed complete
      obtain rfl := own given
      have stored : provider.pqcKeys.lookup (env.crypto.getID (pubkeyAt env child i)) = some hybrid :=
        stored
      obtain ⟨pqcSig, made, -, -⟩ := @createPQCSig_verified _ signer _ _ program standard _ _ stored
        (signs hybrid rfl) [_] rfl
      have four : ((signPSBTInput env.crypto signer true provider sighash true inputs index).1 index
          ).finalScriptWitness.length = 4 := by
        have made : pqcElements env.crypto signer provider
            (psbtCreator env.crypto index utxo.nValue sighash) true
            (env.crypto.getID (pubkeyAt env child i)) (keyHashScript program)
            = [pqcSig, hybrid.mPqcPublicKey] := by
          rw [pqcElements, made]
        rw [made] at elements
        simp [signPSBTInput, signed, fromSignatureData, ← elements]
      have two := @Spends.length_finalized _ signer true _ _ _ _ _ _ (spends.kept complete)
      have four := carries four
      rw [twoSteps] at four
      omega
  · rintro rfl
    exact keeps complete fun pubkey given => by rw [own given]; exact stored

def psbtInputs (program : Bytes) : PSBTInputs oneInput.txTo :=
  fun _ => { witnessUtxo := { nValue := 2000, scriptPubKey := payToKeyHash program } }

def firstInput : Fin oneInput.txTo.vin.length := ⟨oneInput.nIn, oneInput.inputExists⟩

def classicalWallet : SpkMan Bool :=
  ((fresh sizedEnv none (0, 0, 0)).setupDescriptorGeneration sizedEnv classicalConfig rootKey
    ).toOption.getD (fresh sizedEnv none (0, 0, 0))

theorem classicalWallet_reachable :
    Reachable sizedEnv plainMasterKey (· = rootKey) classicalWallet :=
  .generated false classicalConfig rfl (eq_ok_of_toBool (by decide +kernel) _)

/-- A wallet without post-quantum keys signs in two steps as in one. -/
theorem signThenFinalize_classicalWallet : ∃ provider,
    classicalWallet.getSigningProvider sizedEnv (payToKeyHash plainProgram) true = some provider ∧
    KeepsWitness sizedCrypto sizedSigner true provider 1 (psbtInputs plainProgram) firstInput := by
  obtain ⟨provider, provides, keeps, -⟩ := @signThenFinalize_iff _ sizedEnv _ _ _ _ _ plainProgram
    sizedEnv_wpkh sizedSigner_correct classicalWallet_reachable (by decide +kernel)
    (by decide +kernel) (by decide +kernel) oneInput.txTo (psbtInputs plainProgram) firstInput _ _
    ⟨rfl, rfl, by decide +kernel, rfl, rfl⟩ rfl nofun 1 ⟨by decide, by decide, by decide⟩
  have complete : (classicalWallet.getSigningProvider sizedEnv (payToKeyHash plainProgram) true).map
      (fun provider => (signPSBTInput sizedCrypto sizedSigner true provider 1 true
        (psbtInputs plainProgram) firstInput).2) = some true := by decide +kernel
  rw [provides] at complete
  exact ⟨provider, provides, (keeps (Option.some.inj complete)).mpr (by decide +kernel)⟩

/-- **The witness that is lost**: a wallet created under the default configuration completes both
of its addresses in one step, with four elements.  In two steps the plain one has two elements, and
the hybrid one is not completed. -/
theorem falconWallet_loses_witness :
    [plainProgram, hybridProgramAt0].map (fun program =>
      (falconWallet.getSigningProvider sizedEnv (payToKeyHash program) true).map fun provider =>
        let oneStep := signPSBTInput sizedCrypto sizedSigner true provider 1 true (psbtInputs program)
          firstInput
        let twoSteps := signThenFinalize sizedCrypto sizedSigner true provider 1 (psbtInputs program)
          firstInput
        (oneStep.2, (oneStep.1 firstInput).finalScriptWitness.length,
          psbtInputSignedAndVerified sizedCrypto sizedSigner firstInput twoSteps,
          twoSteps.finalScriptWitness.length))
      = [some (true, 4, true, 2), some (true, 4, false, 0)] := by
  decide +kernel

end SpkMan

end QuantBTC.Wallet
