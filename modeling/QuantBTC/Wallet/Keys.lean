/-
# Wallet.Keys -- keys of a descriptor wallet

Private keys, the post-quantum half of a key (`pqc::HybridKey`), the configuration that
chooses a scheme, and how a post-quantum key is derived from the ECDSA key, the descriptor
and the index.  Signature schemes, the cipher and the hash functions are parameters.

A `std::map` is an `AList`: a list of entries with distinct keys.  Loops go through the
entries in the order of the list, and no result depends on which order that is.
-/
import QuantBTC.Script.Checker

namespace QuantBTC.Wallet

set_option autoImplicit false

open Primitives Script

abbrev StdMap (κ ν : Type) := AList fun _ : κ => ν

/-! ## Keys -/

abbrev CKeyID := Bytes

structure CKey where
  keydata : Bytes := []
  fCompressed : Bool := false
deriving DecidableEq, Repr

def CKey.isValid (key : CKey) : Bool := key.keydata != []

structure KeyCrypto where
  hashes : HashFunctions
  /-- `CKey::Check`, the range of a secret -/
  check : Bytes → Bool
  getPubKey : CKey → CPubKey
  verifyPubKey : CKey → CPubKey → Bool
  /-- master key, plaintext and initialisation vector -/
  encryptSecret : Bytes → Bytes → Uint256 → Option Bytes
  /-- master key, ciphertext and initialisation vector -/
  decryptSecret : Bytes → Bytes → Uint256 → Option Bytes
  /-- the public and the private key of a seed -/
  dilithiumDeriveKeyPair : Bytes → Option (Bytes × Bytes)
  falconDeriveKeyPair : Bytes → Option (Bytes × Bytes)

variable (crypto : KeyCrypto)

def KeyCrypto.getID (pubkey : CPubKey) : CKeyID := crypto.hashes.hash160 pubkey.bytes

def KeyCrypto.getHash (pubkey : CPubKey) : Uint256 := crypto.hashes.hash256 pubkey.bytes

def isCompressed (pubkey : CPubKey) : Bool := pubkey.bytes.length == 33

def KeyCrypto.setKey (secret : Bytes) (fCompressed : Bool) : CKey :=
  if secret.length = 32 ∧ crypto.check secret then { keydata := secret, fCompressed } else {}

def KeyCrypto.decryptKey (masterKey cryptedSecret : Bytes) (pubkey : CPubKey) : CKey × Bool :=
  match crypto.decryptSecret masterKey cryptedSecret (crypto.getHash pubkey) with
  | none => ({}, false)
  | some secret =>
    if secret.length = 32 then
      let key := crypto.setKey secret (isCompressed pubkey)
      (key, crypto.verifyPubKey key pubkey)
    else ({}, false)

structure KeyCrypto.Valid (key : CKey) : Prop where
  size : key.keydata.length = 32
  inRange : crypto.check key.keydata = true
  compressed : isCompressed (crypto.getPubKey key) = key.fCompressed
  verifies : crypto.verifyPubKey key (crypto.getPubKey key) = true

def KeyCrypto.Inverts (masterKey : Bytes) : Prop :=
  ∀ secret, secret ≠ [] → ∀ iv, ∃ ciphertext, crypto.encryptSecret masterKey secret iv = some ciphertext ∧
    crypto.decryptSecret masterKey ciphertext iv = some secret

variable {crypto}

theorem KeyCrypto.Inverts.decrypts {masterKey secret ciphertext : Bytes} {iv : Uint256}
    (inverts : crypto.Inverts masterKey) (present : secret ≠ [])
    (encrypted : crypto.encryptSecret masterKey secret iv = some ciphertext) :
    crypto.decryptSecret masterKey ciphertext iv = some secret := by
  obtain ⟨ciphertext', encrypted', decrypts⟩ := inverts secret present iv
  rw [encrypted] at encrypted'
  cases encrypted'
  exact decrypts

theorem KeyCrypto.Valid.keydata_ne {key : CKey} (valid : crypto.Valid key) : key.keydata ≠ [] := by
  intro empty
  have size := valid.size
  simp [empty] at size

theorem KeyCrypto.Valid.decryptKey_eq {key : CKey} (valid : crypto.Valid key)
    {masterKey ciphertext : Bytes}
    (decrypts : crypto.decryptSecret masterKey ciphertext (crypto.getHash (crypto.getPubKey key))
      = some key.keydata) :
    crypto.decryptKey masterKey ciphertext (crypto.getPubKey key) = (key, true) := by
  simp [decryptKey, decrypts, setKey, valid.size, valid.inRange, valid.compressed, valid.verifies]

/-! ## Post-quantum keys -/

structure HybridKey where
  mPqcPublicKey : Bytes := []
  mPqcPrivateKey : Bytes := []
deriving DecidableEq, Repr

namespace HybridKey

def setPQCKey (key : HybridKey) (publicKey privateKey : Bytes) : HybridKey × Bool :=
  if publicKey = [] ∨ privateKey = [] then (key, false)
  else ({ mPqcPublicKey := publicKey, mPqcPrivateKey := privateKey }, true)

def setPQCPublicKey (key : HybridKey) (publicKey : Bytes) : HybridKey × Bool :=
  if publicKey.length ≠ PqcScheme.dilithium.publicKeySize ∧
      publicKey.length ≠ PqcScheme.falcon.publicKeySize ∧
      publicKey.length ≠ PqcScheme.falcon1024.publicKeySize then (key, false)
  else if publicKey.all (· == 0) then (key, false)
  else ({ key with mPqcPublicKey := publicKey }, true)

def hasPQCPrivateKey (key : HybridKey) : Bool := key.mPqcPrivateKey != []

def getPQCPrivateKey (key : HybridKey) : Option Bytes :=
  if key.mPqcPrivateKey = [] then none else some key.mPqcPrivateKey

end HybridKey

inductive PQCSignatureScheme where
  | dilithium
  | falcon
  | falcon1024
  | sphincsPlus
deriving DecidableEq, Repr

structure PQCConfig where
  enableHybridSignatures : Bool
  preferredSigScheme : PQCSignatureScheme
deriving DecidableEq, Repr

def PQCConfig.useFalcon (config : PQCConfig) : Bool :=
  config.preferredSigScheme == .falcon || config.preferredSigScheme == .falcon1024

variable (crypto)

def KeyCrypto.derivationHash (domain : String) (ecdsaKey : CKey) (descriptorId : Uint256)
    (index : Nat) (pubkey : CPubKey) : Uint256 :=
  crypto.hashes.hash256 (vectorBytes domain.toUTF8.data.toList ++ uint256Bytes descriptorId ++
    leBytes 4 index ++ vectorBytes pubkey.bytes ++ vectorBytes ecdsaKey.keydata)

def KeyCrypto.deriveDilithium (ecdsaKey : CKey) (descriptorId : Uint256) (index : Nat)
    (pubkey : CPubKey) : Option (Bytes × Bytes) :=
  if ecdsaKey.isValid then
    crypto.dilithiumDeriveKeyPair (uint256Bytes
      (crypto.derivationHash "qbtc.pqc.dilithium.v1" ecdsaKey descriptorId index pubkey))
  else none

def KeyCrypto.deriveFalcon (ecdsaKey : CKey) (descriptorId : Uint256) (index : Nat)
    (pubkey : CPubKey) : Option (Bytes × Bytes) :=
  if ecdsaKey.isValid then
    let seedHash := crypto.derivationHash "qbtc.pqc.falcon.v1" ecdsaKey descriptorId index pubkey
    let seedHash2 := crypto.hashes.hash256
      (vectorBytes "qbtc.pqc.falcon.v1".toUTF8.data.toList ++ uint256Bytes seedHash)
    crypto.falconDeriveKeyPair (uint256Bytes seedHash ++ (uint256Bytes seedHash2).take 16)
  else none

end QuantBTC.Wallet
