/-
# Wallet.Spendable -- what is mine can be spent

`ProduceSignature` on a P2WPKH script of the wallet, with the wallet's own provider.  The witness
carries the post-quantum public key whenever one is stored, so that it fits a hybrid address.  The
interpreter takes three elements to be a spend of a hybrid address, and so the plain address of the
same key, which the wallet counts as its own, cannot be spent while post-quantum signing is off.
-/
import QuantBTC.Wallet.Wpkh

namespace QuantBTC.Wallet

set_option autoImplicit false

open Primitives Script Theory.Maps

variable {Cache : Type} {env : WalletEnv Cache}

namespace SpkMan

variable (env) in
def matchesPqcKey (script : Bytes) (w : SpkMan Cache) : Bool :=
  match w.mMapScriptPubKeys.lookup script with
  | none => true
  | some index =>
    (env.desc.pubkeys index).all fun pubkey =>
      match w.pqcPubkeyOf (env.crypto.getID pubkey) with
      | none => true
      | some pqcPub => script == payToKeyHash (hybridHash env pubkey pqcPub)

variable {masterKey : Bytes} {root : CKey} {child : Nat → CKey} {signer : Signer}
  {w : SpkMan Cache} {i : Nat}

/-! ## The keys a wallet signs with -/

theorem payToKeyHash_inj {program other : Bytes} (keyHash : program.length = 20)
    (keyHash' : other.length = 20) (same : payToKeyHash program = payToKeyHash other) :
    program = other := by grind [payToKeyHash_eq, List.cons.inj]

variable {pubkeys : StdMap CKeyID CPubKey}

theorem OwnPqcKey.full (correct : signer.Correct env.crypto) {encrypted : Bool} {hybrid : HybridKey}
    (own : OwnPqcKey env child encrypted i hybrid.mPqcPublicKey hybrid.mPqcPrivateKey)
    (listed : pubkeys.lookup (idAt env child i) = some (pubkeyAt env child i)) :
    ∃ full, fullPqcKey env i pubkeys (AList.singleton (idAt env child i) (child i))
        ⟨idAt env child i, hybrid⟩ = some full ∧
      full.mPqcPublicKey = hybrid.mPqcPublicKey ∧ signer.Signs full := by
  have secret : (AList.singleton (idAt env child i) (child i) : KeyMap).lookup (idAt env child i)
      = some (child i) := by simp [AList.singleton, AList.lookup]
  cases own with
  | @falcon pqcPriv derived pubOnly =>
    have pair := correct_deriveFalcon correct derived
    obtain ⟨pub_ne, priv_ne⟩ := pair.ne_nil (by decide)
    refine ⟨⟨hybrid.mPqcPublicKey, pqcPriv⟩, ?_, rfl, signs_falcon pair⟩
    simp [fullPqcKey, secret, HybridKey.hasPQCPrivateKey, pubOnly, listed, derived,
      setPQCKey_eq pub_ne priv_ne]
  | dilithium _ derived =>
    have pair := correct_deriveDilithium correct derived
    refine ⟨hybrid, ?_, rfl, signs_dilithium pair⟩
    simp [fullPqcKey, secret, HybridKey.hasPQCPrivateKey, (pair.ne_nil (by decide)).2]

theorem OwnCryptedPqcKey.decrypted (correct : signer.Correct env.crypto) {pair : Bytes × Bytes}
    (own : OwnCryptedPqcKey env child masterKey i pair) (unlocked : w.vMasterKey = masterKey)
    (listed : pubkeys.lookup (idAt env child i) = some (pubkeyAt env child i)) :
    ∃ full, w.decryptedPqcKey env pubkeys (AList.singleton (idAt env child i) (child i))
        ⟨idAt env child i, pair⟩ = some full ∧
      full.mPqcPublicKey = pair.1 ∧ signer.Signs full := by
  have secret : (AList.singleton (idAt env child i) (child i) : KeyMap).lookup (idAt env child i)
      = some (child i) := by simp [AList.singleton, AList.lookup]
  obtain ⟨pqcPriv, derived, decrypts⟩ := own
  have correctPair := correct_deriveDilithium correct derived
  obtain ⟨pub_ne, priv_ne⟩ := correctPair.ne_nil (by decide)
  refine ⟨⟨pair.1, pqcPriv⟩, ?_, rfl, signs_dilithium correctPair⟩
  simp [decryptedPqcKey, secret, listed, unlocked, decrypts, setPQCKey_eq pub_ne priv_ne]

theorem Owned.givenPqcKey (inv : Owned env masterKey root child w)
    (wpkh : Wpkh env child masterKey root) (correct : signer.Correct env.crypto)
    (has : env.desc.Has i) (master : w.hasEncryptionKeys = true → w.vMasterKey = masterKey)
    (listed : pubkeys.lookup (idAt env child i) = some (pubkeyAt env child i)) :
    ∃ pqcKey,
      ((w.mMapCryptedPqcKeys.lookup (idAt env child i)).bind fun pair =>
        w.decryptedPqcKey env pubkeys (AList.singleton (idAt env child i) (child i))
          ⟨idAt env child i, pair⟩).or
        ((w.mMapPqcKeys.lookup (idAt env child i)).bind fun hybrid =>
          fullPqcKey env i pubkeys (AList.singleton (idAt env child i) (child i))
            ⟨idAt env child i, hybrid⟩) = pqcKey ∧
      (∀ hybrid ∈ pqcKey, signer.Signs hybrid) ∧
      w.pqcPubkeyOf (idAt env child i) = pqcKey.map HybridKey.mPqcPublicKey := by
  cases plain : w.mMapPqcKeys.lookup (idAt env child i) with
  | some hybrid =>
    obtain ⟨j, has', same, own⟩ := inv.pqcKeys _ _ plain
    obtain rfl := wpkh.distinct has has' same
    obtain ⟨full, full_eq, pub, signs⟩ := OwnPqcKey.full correct own listed
    have noCrypted : w.mMapCryptedPqcKeys.lookup (idAt env child i) = none :=
      AList.lookup_eq_none.mpr (inv.disjoint _ (mem_of_lookup plain))
    refine ⟨some full, ?_, by simpa using signs, by simp [pqcPubkeyOf, plain, pub]⟩
    rwa [noCrypted]
  | none =>
    cases crypted : w.mMapCryptedPqcKeys.lookup (idAt env child i) with
    | some pair =>
      obtain ⟨j, has', same, own⟩ := inv.cryptedPqc _ _ crypted
      obtain rfl := wpkh.distinct has has' same
      have encrypted : w.hasEncryptionKeys = true := by
        by_contra unencrypted
        simp [inv.noCrypted (by simpa using unencrypted)] at crypted
      obtain ⟨full, full_eq, pub, signs⟩ :=
        OwnCryptedPqcKey.decrypted correct own (master encrypted) listed
      refine ⟨some full, ?_, by simpa using signs, by simp [pqcPubkeyOf, plain, crypted, pub]⟩
      rw [Option.bind_some, full_eq]
      rfl
    | none => exact ⟨none, rfl, by rintro hybrid ⟨⟩, by simp [pqcPubkeyOf, plain, crypted]⟩

theorem Owned.provider (inv : Owned env masterKey root child w)
    (wpkh : Wpkh env child masterKey root) (correct : signer.Correct env.crypto)
    (unlocked : w.isLocked = false) (havePrivate : w.havePrivateKeys = true)
    (cached : env.desc.expandFromCache w.cache i = true) :
    ∃ provider pqcKey, w.signingProviderAt env i true = some provider ∧
      provider.keys.lookup (idAt env child i) = some (child i) ∧
      provider.pubkeys.lookup (idAt env child i) = some (pubkeyAt env child i) ∧
      provider.pqcKeys.lookup (idAt env child i) = pqcKey ∧
      (∀ hybrid ∈ pqcKey, signer.Signs hybrid ∧
        provider.pubkeys.lookup (hybridHash env (pubkeyAt env child i) hybrid.mPqcPublicKey)
          = some (pubkeyAt env child i)) ∧
      w.pqcPubkeyOf (idAt env child i) = pqcKey.map HybridKey.mPqcPublicKey := by
  have has : env.desc.Has i := ⟨_, cached⟩
  obtain ⟨keys, -, master⟩ := inv.opened unlocked havePrivate
  have expanded : env.desc.expandPrivate (w.getKeys env) i
      = AList.singleton (env.crypto.getID (pubkeyAt env child i)) (child i) := by
    rw [keys, wpkh.expandPrivate]
    rfl
  obtain ⟨provider, provides, only, hybrids, keys_eq, pqcKeys⟩ :=
    signingProviderAt_single cached (wpkh.pubkeys i) havePrivate expanded
  have secret : provider.keys.lookup (idAt env child i) = some (child i) := by
    rw [keys_eq]
    simp [idAt, AList.singleton, AList.lookup]
  obtain ⟨pqcKey, stored, signs, pub⟩ := inv.givenPqcKey wpkh correct has master only.2
  rw [keys_eq] at pqcKeys
  have stored := pqcKeys.trans stored
  refine ⟨provider, pqcKey, provides, secret, only.2, stored, ?_, pub⟩
  intro hybrid own
  refine ⟨signs hybrid own, hybrids _ ?_ (signs hybrid own).pub_ne⟩
  rw [show env.crypto.getID (pubkeyAt env child i) = idAt env child i from rfl, pub, own]
  rfl

/-! ## Spending -/

theorem ownKeyHash (wpkh : Wpkh env child masterKey root) (correct : signer.Correct env.crypto)
    (reachable : Reachable env masterKey (· = root) w) (unlocked : w.isLocked = false)
    (havePrivate : w.havePrivateKeys = true) {program : Bytes} (keyHash : program.length = 20)
    (mine : w.isMine (payToKeyHash program) = true) :
    ∃ i provider pqcKey, w.mMapScriptPubKeys.lookup (payToKeyHash program) = some i ∧
      w.getSigningProvider env (payToKeyHash program) true = some provider ∧
      provider.pubkeys.lookup program = some (pubkeyAt env child i) ∧
      provider.keys.lookup (idAt env child i) = some (child i) ∧
      provider.pqcKeys.lookup (idAt env child i) = pqcKey ∧
      (∀ hybrid ∈ pqcKey, signer.Signs hybrid) ∧
      w.pqcPubkeyOf (idAt env child i) = pqcKey.map HybridKey.mPqcPublicKey ∧
      (program = idAt env child i ∨ ∃ hybrid ∈ pqcKey,
        program = hybridHash env (pubkeyAt env child i) hybrid.mPqcPublicKey) := by
  have inv := (Owned.closed wpkh correct).holds reachable
  obtain ⟨i, found⟩ := Option.isSome_iff_exists.mp mine
  obtain ⟨cached, own⟩ := inv.scripts _ _ found
  obtain ⟨provider, pqcKey, provides, secret, listed, stored, signs, pub⟩ :=
    inv.provider wpkh correct unlocked havePrivate cached
  have address : program = idAt env child i ∨ ∃ hybrid ∈ pqcKey,
      program = hybridHash env (pubkeyAt env child i) hybrid.mPqcPublicKey := by
    rcases own with plain | ⟨pqcPub, kept, hybrid⟩
    · exact .inl (payToKeyHash_inj keyHash (wpkh.hashSize _) plain)
    · rw [pub] at kept
      obtain ⟨full, given, rfl⟩ := Option.map_eq_some_iff.mp kept
      exact .inr ⟨full, given, payToKeyHash_inj keyHash (wpkh.hashSize _) hybrid⟩
  have known : provider.pubkeys.lookup program = some (pubkeyAt env child i) := by
    rcases address with rfl | ⟨hybrid, given, rfl⟩
    · exact listed
    · exact (signs hybrid given).2
  refine ⟨i, provider, pqcKey, found, ?_, known, secret, stored, fun hybrid given =>
    (signs hybrid given).1, pub, address⟩
  rwa [getSigningProvider, found]

/-- **What is mine can be spent, except a plain address with a post-quantum key while post-quantum
signing is off.**  In every reachable, unlocked state of a `wpkh()` wallet with private keys, for
every P2WPKH script that is its own, the wallet's provider completes the spend exactly when

* the program is not a zero, and
* post-quantum signing is on, or the script is that of the post-quantum key stored for its index,
  or none is stored. -/
theorem spendable_iff (wpkh : Wpkh env child masterKey root) (correct : signer.Correct env.crypto)
    (reachable : Reachable env masterKey (· = root) w) (unlocked : w.isLocked = false)
    (havePrivate : w.havePrivateKeys = true) {program : Bytes} (keyHash : program.length = 20)
    (mine : w.isMine (payToKeyHash program) = true) {creator : SignatureCreator}
    (standard : creator.Standard) (signingOverride : Option Bool) (config : PQCConfig) :
    ∃ provider, w.getSigningProvider env (payToKeyHash program) true = some provider ∧
      ((produceSignature env.crypto signer provider creator (config.shouldSignPQC signingOverride)
          (payToKeyHash program) {}).complete = true ↔
        castToBool program = true ∧
          (config.shouldSignPQC signingOverride = true ∨
            w.matchesPqcKey env (payToKeyHash program) = true)) := by
  obtain ⟨i, provider, pqcKey, found, provides, known, secret, stored, signs, pub, address⟩ :=
    ownKeyHash wpkh correct reachable unlocked havePrivate keyHash mine
  have matching : w.matchesPqcKey env (payToKeyHash program) = true ↔
      ∀ hybrid ∈ pqcKey, hybridHash env (pubkeyAt env child i) hybrid.mPqcPublicKey = program := by
    have stored : w.pqcPubkeyOf (env.crypto.getID (pubkeyAt env child i))
        = pqcKey.map HybridKey.mPqcPublicKey := pub
    have hybridSize (pqcPub : Bytes) :
        (hybridHash env (pubkeyAt env child i) pqcPub).length = 20 := wpkh.hashSize _
    simp only [matchesPqcKey, found, wpkh.pubkeys, List.all_cons, List.all_nil, Bool.and_true, stored]
    cases pqcKey with
    | none => simp
    | some hybrid => grind [payToKeyHash_inj]
  refine ⟨provider, provides, ?_⟩
  rw [produceSignature_complete_iff correct standard (wpkh.valid i) (wpkh.compressed i) keyHash
    known secret stored signs, matching]
  refine and_congr_right fun _ => ?_
  cases pqcKey with
  | none =>
    have plain : idAt env child i = program := by grind
    exact ⟨fun _ => .inr nofun, fun _ => plain⟩
  | some hybrid =>
    constructor
    · rintro (both | ⟨signing, -⟩)
      · exact .inr fun _ given => by rw [← Option.some.inj given]; exact both
      · exact .inl signing
    · rintro (signing | both)
      · rcases address with plain | ⟨_, given, both⟩
        · exact .inr ⟨signing, plain.symm⟩
        · rw [← Option.some.inj given] at both
          exact .inl both.symm
      · exact .inl (both hybrid rfl)

/-! ## A wallet to evaluate with -/

def paddedKey (size : Nat) (seed : Bytes) : Bytes := 1 :: (seed ++ List.replicate size 1).take (size - 1)

def sizedCrypto : KeyCrypto :=
  { plainCrypto with
    dilithiumDeriveKeyPair := fun seed => some (paddedKey 1312 seed, paddedKey 2560 seed)
    falconDeriveKeyPair := fun seed => some (paddedKey 897 seed, paddedKey 1281 seed) }

def sizedSigner : Signer where
  sign _ _ := some [0x30, 6, 2, 1, 1, 2, 1, 1]
  dilithiumSign _ _ := some (List.replicate 2420 3)
  falconSign _ _ := some (List.replicate 666 3)
  falcon1024Sign _ _ := none
  schemes :=
    { ecdsaVerify := fun _ _ _ => true
      dilithiumVerify := fun _ _ _ => true
      falconVerify := fun _ _ _ => true
      falcon1024Verify := fun _ _ _ => true
      sphincsVerify := fun _ _ _ => true }
  checkLowS _ := true
  checkTapTweak _ _ _ _ := false
  otherChecks := sampleChecker false
  signTaproot _ sigdata _ := (sigdata, none)
  satisfyMiniscript _ _ _ := none

def sizedEnv : WalletEnv Bool where
  crypto := sizedCrypto
  desc := plainDescriptor (· < 4)
  mKeypoolSize := 1

theorem length_paddedKey {size : Nat} (positive : 0 < size) (seed : Bytes) :
    (paddedKey size seed).length = size := by
  simp [paddedKey]
  omega

theorem correctPair_paddedKey {scheme : PqcScheme} {privateKeySize : Nat}
    {sign : Bytes → Bytes → Option Bytes} {sig : Bytes} (seed : Bytes)
    (positive : 0 < privateKeySize) (signs : ∀ message,
      sign (paddedKey privateKeySize seed) message = some sig)
    (size : sig.length = scheme.signatureSize) :
    CorrectPair scheme privateKeySize sign (fun _ _ _ => true)
      (paddedKey scheme.publicKeySize seed) (paddedKey privateKeySize seed) where
  pubSize := length_paddedKey (by cases scheme <;> decide) seed
  privSize := length_paddedKey positive seed
  nonzero := by simp [paddedKey]
  signs message := ⟨sig, signs message, size, rfl⟩

theorem sizedSigner_correct : sizedSigner.Correct sizedCrypto where
  ecdsa _ _ := ⟨_, rfl, rfl, rfl, fun _ => rfl⟩
  dilithium {seed _ _} derived := by
    obtain ⟨rfl, rfl⟩ := Prod.mk.inj (Option.some.inj derived)
    exact correctPair_paddedKey seed (by decide) (fun _ => rfl) (List.length_replicate ..)
  falcon {seed _ _} derived := by
    obtain ⟨rfl, rfl⟩ := Prod.mk.inj (Option.some.inj derived)
    exact correctPair_paddedKey seed (by decide) (fun _ => rfl) (List.length_replicate ..)

theorem sizedCrypto_valid (i : Nat) : sizedCrypto.Valid (childKey i) where
  size := by simp [childKey]
  inRange := rfl
  compressed := by
    show ((plainPubKey (childKey i)).bytes.length == 33) = true
    simp [plainPubKey]
  verifies := beq_self_eq_true (plainPubKey (childKey i))

theorem plainDescriptor_expandPrivate {has : Nat → Bool} {keys : KeyMap} {i : Nat}
    (root : plainCrypto.getID (plainPubKey rootKey) ∈ keys) :
    (plainDescriptor has).expandPrivate keys i
      = AList.singleton (plainCrypto.getID (plainPubKey (childKey i))) (childKey i) := by
  show (if plainCrypto.getID (plainPubKey rootKey) ∈ keys then
    (AList.singleton (plainCrypto.getID (plainPubKey (childKey i))) (childKey i) : KeyMap)
    else ∅) = _
  rw [if_pos root]

theorem sizedEnv_wpkh : Wpkh sizedEnv childKey plainMasterKey rootKey where
  inverts := plainCrypto_inverts plainMasterKey
  masterKey_ne := by decide
  rootValid :=
    ⟨rootKey_valid.size, rootKey_valid.inRange, rootKey_valid.compressed, rootKey_valid.verifies⟩
  valid := sizedCrypto_valid
  compressed _ := rfl
  scripts _ := rfl
  pubkeys _ := rfl
  expandPrivate _ := plainDescriptor_expandPrivate (mem_singleton_self _ _)
  distinct {i j} has has' same := by
    have four : ∀ a b : Fin 4, idAt sizedEnv childKey a = idAt sizedEnv childKey b → a = b := by
      decide +kernel
    have below {n : Nat} (has : sizedEnv.desc.Has n) : n < 4 := by
      obtain ⟨cache, expands⟩ := has
      exact of_decide_eq_true (Bool.and_eq_true_iff.mp expands).2
    exact Fin.mk.inj_iff.mp (four ⟨i, below has⟩ ⟨j, below has'⟩ same)
  hashSize data := by
    show ((uint256Bytes _).take 20).length = 20
    simp

def oneInput : SignatureCreator where
  txTo := { vin := [{ prevout := ⟨1, 0⟩ }], vout := [{ nValue := 1000, scriptPubKey := [0x51] }] }
  nIn := 0
  nHashType := 0
  amount := 2000
  inputExists := by decide

theorem oneInput_standard : oneInput.Standard := ⟨by decide, by decide, by decide⟩

def falconWallet : SpkMan Bool :=
  ((fresh sizedEnv none (0, 0, 0)).setupDescriptorGeneration sizedEnv falconConfig rootKey
    ).toOption.getD (fresh sizedEnv none (0, 0, 0))

theorem falconWallet_reachable : Reachable sizedEnv plainMasterKey (· = rootKey) falconWallet :=
  .generated false falconConfig rfl (eq_ok_of_toBool (by decide +kernel) _)

def plainProgram : Bytes := idAt sizedEnv childKey 0

def hybridProgramAt0 : Bytes :=
  hybridHash sizedEnv (pubkeyAt sizedEnv childKey 0)
    ((falconWallet.pqcPubkeyOf (idAt sizedEnv childKey 0)).getD [])

/-- The hybrid address is spent with post-quantum signing off. -/
theorem spendable_hybridAddress : ∃ provider,
    falconWallet.getSigningProvider sizedEnv (payToKeyHash hybridProgramAt0) true = some provider ∧
    (produceSignature sizedCrypto sizedSigner provider oneInput false (payToKeyHash hybridProgramAt0)
      {}).complete = true := by
  obtain ⟨provider, provides, complete⟩ := spendable_iff sizedEnv_wpkh sizedSigner_correct
    falconWallet_reachable (by decide +kernel) (by decide +kernel)
    (show hybridProgramAt0.length = 20 by decide +kernel) (by decide +kernel) oneInput_standard
    (some false) falconConfig
  exact ⟨provider, provides, complete.mpr (by decide +kernel)⟩

def classicalConfig : PQCConfig := ⟨false, .falcon⟩

/-- A wallet created under the default configuration, which is run with post-quantum signatures
off: the address it hands out is its own, and it cannot spend from it. -/
theorem plainAddress_unspendable :
    Wpkh sizedEnv childKey plainMasterKey rootKey ∧ sizedSigner.Correct sizedCrypto ∧
    Reachable sizedEnv plainMasterKey (· = rootKey) falconWallet ∧
    falconWallet.isLocked = false ∧ falconWallet.havePrivateKeys = true ∧ oneInput.Standard ∧
    (falconWallet.getNewDestination sizedEnv classicalConfig).toOption.map (·.2)
      = some (some (payToKeyHash plainProgram)) ∧
    plainProgram.length = 20 ∧ falconWallet.isMine (payToKeyHash plainProgram) = true ∧
    (falconWallet.getSigningProvider sizedEnv (payToKeyHash plainProgram) true).map (fun provider =>
      (produceSignature sizedCrypto sizedSigner provider oneInput
        (classicalConfig.shouldSignPQC none) (payToKeyHash plainProgram) {}).complete)
      = some false :=
  ⟨sizedEnv_wpkh, sizedSigner_correct, falconWallet_reachable, by decide +kernel, by decide +kernel,
    oneInput_standard, by decide +kernel, by decide +kernel, by decide +kernel, by decide +kernel⟩

end SpkMan

end QuantBTC.Wallet
