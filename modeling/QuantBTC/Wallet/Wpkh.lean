/-
# Wallet.Wpkh -- the keys of a P2WPKH wallet belong to its indices

What holds in every state of a wallet with one `wpkh()` descriptor: each script is that of an
index, the plain one or the hybrid one of the post-quantum key that is stored for the index; each
post-quantum key was derived for its index; and the wallet file holds no key the maps do not have.
A Falcon key is stored without its private half, and a Dilithium key of an encrypted wallet is
stored encrypted.
-/
import QuantBTC.Wallet.Encryption
import QuantBTC.Wallet.SigningProvider

namespace QuantBTC.Wallet

set_option autoImplicit false

open Primitives Script Theory.Loops Theory.Maps

variable {Cache : Type} (env : WalletEnv Cache)

/-! ## The descriptor -/

section

variable (child : Nat → CKey)

def pubkeyAt (i : Nat) : CPubKey := env.crypto.getPubKey (child i)

def idAt (i : Nat) : CKeyID := env.crypto.getID (pubkeyAt env child i)

structure Wpkh (masterKey : Bytes) (root : CKey) : Prop where
  inverts : env.crypto.Inverts masterKey
  masterKey_ne : masterKey ≠ []
  rootValid : env.crypto.Valid root
  valid : ∀ i, env.crypto.Valid (child i)
  compressed : ∀ i, (child i).fCompressed = true
  scripts : ∀ i, env.desc.scripts i = [payToKeyHash (idAt env child i)]
  pubkeys : ∀ i, env.desc.pubkeys i = [pubkeyAt env child i]
  expandPrivate : ∀ i, env.desc.expandPrivate
    (AList.singleton (env.crypto.getID (env.crypto.getPubKey root)) root) i
      = AList.singleton (idAt env child i) (child i)
  /-- no two indices have keys of one id -/
  distinct : ∀ {i j}, env.desc.Has i → env.desc.Has j → idAt env child i = idAt env child j → i = j
  hashSize : ∀ data, (env.crypto.hashes.hash160 data).length = 20

/-! ## The invariant -/

inductive OwnPqcKey (encrypted : Bool) (i : Nat) (pqcPub stored : Bytes) : Prop where
  | falcon {pqcPriv : Bytes}
      (derived : env.crypto.deriveFalcon (child i) env.desc.id i (pubkeyAt env child i)
        = some (pqcPub, pqcPriv)) (pubOnly : stored = [])
  | dilithium (unencrypted : encrypted = false)
      (derived : env.crypto.deriveDilithium (child i) env.desc.id i (pubkeyAt env child i)
        = some (pqcPub, stored))

def OwnCryptedPqcKey (masterKey : Bytes) (i : Nat) (pair : Bytes × Bytes) : Prop :=
  ∃ pqcPriv, env.crypto.deriveDilithium (child i) env.desc.id i (pubkeyAt env child i)
      = some (pair.1, pqcPriv) ∧
    env.crypto.decryptSecret masterKey pair.2 (env.crypto.getHash (pubkeyAt env child i))
      = some pqcPriv

end

namespace SpkMan

inductive HoldsRoot (masterKey : Bytes) (root : CKey) (encrypted : Bool) (keys : KeyMap)
    (dbKeys : StdMap CPubKey CKey) (crypted : StdMap CKeyID (CPubKey × Bytes))
    (dbCrypted : StdMap CPubKey Bytes) : Prop where
  | none (noKeys : keys = ∅) (noDbKeys : dbKeys = ∅) (noCrypted : crypted = ∅)
      (noDbCrypted : dbCrypted = ∅)
  | clear (unencrypted : encrypted = false)
      (rootKey : keys = AList.singleton (env.crypto.getID (env.crypto.getPubKey root)) root)
      (dbRootKey : dbKeys = AList.singleton (env.crypto.getPubKey root) root)
      (noCrypted : crypted = ∅) (noDbCrypted : dbCrypted = ∅)
  | sealed {secret : Bytes} (isEncrypted : encrypted = true) (noKeys : keys = ∅)
      (noDbKeys : dbKeys = ∅)
      (decrypts : env.crypto.decryptKey masterKey secret (env.crypto.getPubKey root) = (root, true))
      (cryptedRoot : crypted = AList.singleton (env.crypto.getID (env.crypto.getPubKey root))
        (env.crypto.getPubKey root, secret))
      (dbCryptedRoot : dbCrypted = AList.singleton (env.crypto.getPubKey root) secret)

variable (masterKey : Bytes) (root : CKey) (child : Nat → CKey)

def OwnScript (w : SpkMan Cache) (script : Bytes) (i : Nat) : Prop :=
  script = payToKeyHash (idAt env child i) ∨
    ∃ pqcPub, w.pqcPubkeyOf (idAt env child i) = some pqcPub ∧
      script = payToKeyHash (hybridHash env (pubkeyAt env child i) pqcPub)

structure OwnedWith (cache : Cache) (w : SpkMan Cache) : Prop where
  dbMaster : w.db.hasMasterKey = w.hasEncryptionKeys
  master : w.vMasterKey = [] ∨ w.vMasterKey = masterKey
  root : HoldsRoot env masterKey root w.hasEncryptionKeys w.mMapKeys w.db.keys w.mMapCryptedKeys
    w.db.cryptedKeys
  scripts : AllEntries (fun script i => env.desc.expandFromCache cache i = true ∧
    OwnScript env child w script i) w.mMapScriptPubKeys
  pubkeys : AllEntries (fun pubkey i => env.desc.expandFromCache cache i = true ∧
    pubkey = pubkeyAt env child i) w.mMapPubkeys
  pqcKeys : AllEntries (fun id hybrid => ∃ i, env.desc.Has i ∧ id = idAt env child i ∧
    OwnPqcKey env child w.hasEncryptionKeys i hybrid.mPqcPublicKey hybrid.mPqcPrivateKey)
    w.mMapPqcKeys
  cryptedPqc : AllEntries (fun id pair => ∃ i, env.desc.Has i ∧ id = idAt env child i ∧
    OwnCryptedPqcKey env child masterKey i pair) w.mMapCryptedPqcKeys
  disjoint : ∀ id ∈ w.mMapPqcKeys, id ∉ w.mMapCryptedPqcKeys
  noCrypted : w.hasEncryptionKeys = false → w.mMapCryptedPqcKeys = ∅
  records : AllEntries (fun pubkey record => (∃ i, env.desc.Has i ∧ pubkey = pubkeyAt env child i) ∧
    w.mMapPqcKeys.lookup (env.crypto.getID pubkey) = some ⟨record.1, record.2⟩) w.db.pqcKeys
  cryptedRecords : AllEntries (fun pubkey pair =>
    (∃ i, env.desc.Has i ∧ pubkey = pubkeyAt env child i) ∧
    w.mMapCryptedPqcKeys.lookup (env.crypto.getID pubkey) = some pair) w.db.cryptedPqcKeys

abbrev Owned (w : SpkMan Cache) : Prop := OwnedWith env masterKey root child w.cache w

variable {env masterKey root child} {signer : Signer} {cache : Cache} {w w' : SpkMan Cache}
  {config : PQCConfig}

/-! ## Private keys -/

theorem OwnedWith.getKeys_cases (inv : OwnedWith env masterKey root child cache w) :
    w.getKeys env = ∅ ∧ (w.isLocked = true ∨ w.havePrivateKeys = false) ∧
        (∀ id, w.getKey env id = .none) ∨
      w.getKeys env = AList.singleton (env.crypto.getID (env.crypto.getPubKey root)) root ∧
        w.havePrivateKeys = true ∧ (w.hasEncryptionKeys = true → w.vMasterKey = masterKey) := by
  cases inv.root with
  | none keys _ crypted _ => simp [getKeys, keys, crypted, havePrivateKeys, getKey]
  | clear unencrypted keys _ crypted _ => simp [getKeys, unencrypted, keys, havePrivateKeys]
  | sealed encrypted keys _ decrypts crypted _ =>
    cases locked : w.isLocked with
    | true => simp [getKeys, locked, keys, getKey]
    | false =>
      have unlocked : w.vMasterKey = masterKey := by
        refine inv.master.resolve_left fun empty => ?_
        simp [isLocked, encrypted, empty] at locked
      simp [getKeys, encrypted, locked, crypted, unlocked, decrypts, havePrivateKeys]

variable (env masterKey root) in
structure Opened (w : SpkMan Cache) : Prop where
  keys : w.getKeys env = AList.singleton (env.crypto.getID (env.crypto.getPubKey root)) root
  havePrivate : w.havePrivateKeys = true
  master : w.hasEncryptionKeys = true → w.vMasterKey = masterKey

theorem OwnedWith.opened (inv : OwnedWith env masterKey root child cache w)
    (unlocked : w.isLocked = false) (havePrivate : w.havePrivateKeys = true) :
    Opened env masterKey root w := by
  rcases inv.getKeys_cases with ⟨-, unusable, -⟩ | ⟨keys, -, master⟩
  · simp [unlocked, havePrivate] at unusable
  · exact ⟨keys, havePrivate, master⟩

theorem SameKeys.opened (same : SameKeys w w') (opened : Opened env masterKey root w) :
    Opened env masterKey root w' where
  keys := same.getKeys.trans opened.keys
  havePrivate := by
    have havePrivate := opened.havePrivate
    rwa [havePrivateKeys, ← same.keys, ← same.crypted] at havePrivate
  master encrypted := same.master.trans (opened.master (same.encrypted ▸ encrypted))

theorem Opened.ecdsaKeyFor_eq (opened : Opened env masterKey root w)
    (wpkh : Wpkh env child masterKey root) (enabled : config.enableHybridSignatures = true)
    (i : Nat) :
    w.ecdsaKeyFor env (w.privKeysAt env config (w.getKeys env) i) (idAt env child i)
      = some (child i) := by
  have privKeys : w.privKeysAt env config (w.getKeys env) i
      = AList.singleton (idAt env child i) (child i) := by
    simp [privKeysAt, opened.keys, enabled, opened.havePrivate, wpkh.expandPrivate]
  have own : (AList.singleton (idAt env child i) (child i) : KeyMap).lookup (idAt env child i)
      = some (child i) := by simp [AList.singleton, AList.lookup]
  rw [ecdsaKeyFor, privKeys, own]

theorem OwnedWith.ecdsaKeyFor_eq (inv : OwnedWith env masterKey root child cache w)
    (wpkh : Wpkh env child masterKey root) (enabled : config.enableHybridSignatures = true)
    {i : Nat} {ecdsaKey : CKey}
    (found : w.ecdsaKeyFor env (w.privKeysAt env config (w.getKeys env) i) (idAt env child i)
      = some ecdsaKey) :
    ecdsaKey = child i ∧ (w.hasEncryptionKeys = true → w.vMasterKey = masterKey) := by
  rcases inv.getKeys_cases with ⟨keys, -, none⟩ | ⟨keys, havePrivate, master⟩
  · have empty : w.privKeysAt env config (w.getKeys env) i = ∅ := by
      simp [privKeysAt, keys, env.desc.expandPrivate_empty]
    simp [ecdsaKeyFor, empty, none] at found
  · have opened : Opened env masterKey root w := ⟨keys, havePrivate, master⟩
    rw [opened.ecdsaKeyFor_eq wpkh enabled] at found
    exact ⟨(Option.some.inj found).symm, master⟩

/-! ## Storing keys -/

theorem OwnScript.mono {script : Bytes} {i : Nat} (own : OwnScript env child w script i)
    (kept : ∀ id pqcPub, w.pqcPubkeyOf id = some pqcPub → w'.pqcPubkeyOf id = some pqcPub) :
    OwnScript env child w' script i :=
  own.imp_right fun ⟨pqcPub, stored, script⟩ => ⟨pqcPub, kept _ _ stored, script⟩

theorem OwnedWith.cache_mono (inv : OwnedWith env masterKey root child cache w) {cache' : Cache}
    (grows : ∀ i, env.desc.expandFromCache cache i = true →
      env.desc.expandFromCache cache' i = true) : OwnedWith env masterKey root child cache' w :=
  { inv with
    scripts := inv.scripts.mono fun _ i own => ⟨grows i own.1, own.2⟩
    pubkeys := inv.pubkeys.mono fun _ i own => ⟨grows i own.1, own.2⟩ }

theorem OwnedWith.insertScript (inv : OwnedWith env masterKey root child cache w) {i : Nat}
    (cached : env.desc.expandFromCache cache i = true) {script : Bytes}
    (own : OwnScript env child w script i) :
    OwnedWith env masterKey root child cache
      { w with mMapScriptPubKeys := w.mMapScriptPubKeys.insert script i } :=
  { inv with scripts := inv.scripts.insert ⟨cached, own⟩ }

theorem OwnedWith.addPubkey (inv : OwnedWith env masterKey root child cache w) {i : Nat}
    (cached : env.desc.expandFromCache cache i = true) :
    OwnedWith env masterKey root child cache (w.addPubkey (pubkeyAt env child i) i) :=
  { inv with pubkeys := inv.pubkeys.insert ⟨cached, rfl⟩ }

theorem OwnedWith.registerHybrid (inv : OwnedWith env masterKey root child cache w) {i : Nat}
    (cached : env.desc.expandFromCache cache i = true) {pqcPub : Bytes}
    (stored : w.pqcPubkeyOf (idAt env child i) = some pqcPub) :
    OwnedWith env masterKey root child cache
      (w.registerHybrid env (pubkeyAt env child i) pqcPub i) :=
  inv.insertScript cached (.inr ⟨pqcPub, stored, rfl⟩)

theorem pqcPubkeyOf_eq_none {id : CKeyID} : w.pqcPubkeyOf id = none ↔
    id ∉ w.mMapPqcKeys ∧ id ∉ w.mMapCryptedPqcKeys := by
  rw [← AList.lookup_eq_none, ← AList.lookup_eq_none, pqcPubkeyOf]
  cases w.mMapPqcKeys.lookup id <;> simp

theorem pqcPubkeyOf_storePqcKey {pubkey : CPubKey}
    (new : w.pqcPubkeyOf (env.crypto.getID pubkey) = none) (hybrid : HybridKey)
    (record : Bytes × Bytes) (id : CKeyID) (pqcPub : Bytes) (stored : w.pqcPubkeyOf id = some pqcPub) :
    (w.storePqcKey env pubkey hybrid record).pqcPubkeyOf id = some pqcPub := by
  have other : id ≠ env.crypto.getID pubkey := by
    rintro rfl
    simp [new] at stored
  rw [← stored, pqcPubkeyOf, pqcPubkeyOf, storePqcKey, AList.lookup_insert_ne other]

theorem pqcPubkeyOf_storeCryptedPqcKey {pubkey : CPubKey}
    (new : w.pqcPubkeyOf (env.crypto.getID pubkey) = none) (pair : Bytes × Bytes) (id : CKeyID)
    (pqcPub : Bytes) (stored : w.pqcPubkeyOf id = some pqcPub) :
    (w.storeCryptedPqcKey env pubkey pair).pqcPubkeyOf id = some pqcPub := by
  have other : id ≠ env.crypto.getID pubkey := by
    rintro rfl
    simp [new] at stored
  rw [← stored, pqcPubkeyOf, pqcPubkeyOf, storeCryptedPqcKey, AList.lookup_insert_ne other]

theorem OwnedWith.storePqcKey (inv : OwnedWith env masterKey root child cache w) {i : Nat}
    (cached : env.desc.expandFromCache cache i = true)
    (new : w.pqcPubkeyOf (idAt env child i) = none) {pqcPub stored : Bytes}
    (own : OwnPqcKey env child w.hasEncryptionKeys i pqcPub stored) :
    OwnedWith env masterKey root child cache
      ((w.storePqcKey env (pubkeyAt env child i) ⟨pqcPub, stored⟩ (pqcPub, stored)
        ).registerHybrid env (pubkeyAt env child i) pqcPub i) := by
  obtain ⟨fresh, freshCrypted⟩ := pqcPubkeyOf_eq_none.mp new
  have has : env.desc.Has i := ⟨cache, cached⟩
  have storing : OwnedWith env masterKey root child cache
      (w.storePqcKey env (pubkeyAt env child i) ⟨pqcPub, stored⟩ (pqcPub, stored)) :=
    { inv with
      scripts := inv.scripts.mono fun _ _ own =>
        ⟨own.1, own.2.mono (pqcPubkeyOf_storePqcKey new _ _)⟩
      pqcKeys := inv.pqcKeys.insert ⟨i, has, rfl, own⟩
      disjoint := by
        intro id listed
        rcases (AList.mem_insert _).mp listed with rfl | listed
        · exact freshCrypted
        · exact inv.disjoint id listed
      records := by
        refine (inv.records.mono ?_).insert ⟨⟨i, has, rfl⟩, AList.lookup_insert _⟩
        rintro pubkey record ⟨owned, found⟩
        refine ⟨owned, ?_⟩
        show (w.mMapPqcKeys.insert _ _).lookup _ = _
        rw [AList.lookup_insert_ne, found]
        rintro same
        rw [same] at found
        exact fresh (mem_of_lookup found) }
  refine storing.registerHybrid cached ?_
  rw [pqcPubkeyOf, SpkMan.storePqcKey, idAt, AList.lookup_insert]

theorem OwnedWith.storeCryptedPqcKey (inv : OwnedWith env masterKey root child cache w) {i : Nat}
    (cached : env.desc.expandFromCache cache i = true) (encrypted : w.hasEncryptionKeys = true)
    (new : w.pqcPubkeyOf (idAt env child i) = none) {pair : Bytes × Bytes}
    (own : OwnCryptedPqcKey env child masterKey i pair) :
    OwnedWith env masterKey root child cache
      ((w.storeCryptedPqcKey env (pubkeyAt env child i) pair).registerHybrid env
        (pubkeyAt env child i) pair.1 i) := by
  obtain ⟨fresh, freshCrypted⟩ := pqcPubkeyOf_eq_none.mp new
  have has : env.desc.Has i := ⟨cache, cached⟩
  have storing : OwnedWith env masterKey root child cache
      (w.storeCryptedPqcKey env (pubkeyAt env child i) pair) :=
    { inv with
      scripts := inv.scripts.mono fun _ _ own =>
        ⟨own.1, own.2.mono (pqcPubkeyOf_storeCryptedPqcKey new _)⟩
      cryptedPqc := inv.cryptedPqc.insert ⟨i, has, rfl, own⟩
      disjoint := by
        intro id listed crypted
        rcases (AList.mem_insert _).mp crypted with rfl | crypted
        · exact fresh listed
        · exact inv.disjoint id listed crypted
      noCrypted := by
        intro unencrypted
        exact absurd (encrypted.symm.trans unencrypted) (by decide)
      records := inv.records.erase _
      cryptedRecords := by
        refine (inv.cryptedRecords.mono ?_).insert ⟨⟨i, has, rfl⟩, AList.lookup_insert _⟩
        rintro pubkey record ⟨owned, found⟩
        refine ⟨owned, ?_⟩
        show (w.mMapCryptedPqcKeys.insert _ _).lookup _ = _
        rw [AList.lookup_insert_ne, found]
        rintro same
        rw [same] at found
        exact freshCrypted (mem_of_lookup found) }
  refine storing.registerHybrid cached ?_
  rw [pqcPubkeyOf, SpkMan.storeCryptedPqcKey, AList.lookup_eq_none.mpr fresh]
  simp [idAt]

/-! ## Derived keys -/

theorem setPQCKey_eq {pqcPub pqcPriv : Bytes} (pub_ne : pqcPub ≠ []) (priv_ne : pqcPriv ≠ []) :
    HybridKey.setPQCKey {} pqcPub pqcPriv = (⟨pqcPub, pqcPriv⟩, true) := by
  simp [HybridKey.setPQCKey, pub_ne, priv_ne]

theorem setPQCPublicKey_eq {sign : Bytes → Bytes → Option Bytes}
    {verify : Bytes → Bytes → Bytes → Bool} {pqcPub pqcPriv : Bytes}
    (pair : CorrectPair .falcon 1281 sign verify pqcPub pqcPriv) :
    (HybridKey.setPQCPublicKey {} pqcPub).1 = ⟨pqcPub, []⟩ := by
  rw [HybridKey.setPQCPublicKey, if_neg fun wrong => wrong.2.1 pair.pubSize, pair.nonzero,
    if_neg Bool.false_ne_true]

theorem correct_deriveFalcon (correct : signer.Correct env.crypto) {ecdsaKey : CKey}
    {descriptorId : Uint256} {i : Nat} {pubkey : CPubKey} {pqcPub pqcPriv : Bytes}
    (derived : env.crypto.deriveFalcon ecdsaKey descriptorId i pubkey = some (pqcPub, pqcPriv)) :
    CorrectPair .falcon 1281 signer.falconSign signer.schemes.falconVerify pqcPub pqcPriv := by
  unfold KeyCrypto.deriveFalcon at derived
  split at derived
  · exact correct.falcon derived
  · cases derived

theorem correct_deriveDilithium (correct : signer.Correct env.crypto) {ecdsaKey : CKey}
    {descriptorId : Uint256} {i : Nat} {pubkey : CPubKey} {pqcPub pqcPriv : Bytes}
    (derived : env.crypto.deriveDilithium ecdsaKey descriptorId i pubkey = some (pqcPub, pqcPriv)) :
    CorrectPair .dilithium 2560 signer.dilithiumSign signer.schemes.dilithiumVerify pqcPub
      pqcPriv := by
  unfold KeyCrypto.deriveDilithium at derived
  split at derived
  · exact correct.dilithium derived
  · cases derived

/-! ## Top-ups -/

theorem OwnedWith.topUpPqcKey (inv : OwnedWith env masterKey root child cache w)
    (wpkh : Wpkh env child masterKey root) (correct : signer.Correct env.crypto) {i : Nat}
    (cached : env.desc.expandFromCache cache i = true)
    (new : w.pqcPubkeyOf (idAt env child i) = none)
    (unlocked : w.hasEncryptionKeys = true → w.vMasterKey = masterKey) :
    ∃ w', w.topUpPqcKey env config i (child i) (pubkeyAt env child i) = (w', true) ∧
      OwnedWith env masterKey root child cache w' ∧ w'.cache = w.cache := by
  unfold SpkMan.topUpPqcKey
  split
  · cases derived : env.crypto.deriveFalcon (child i) env.desc.id i (pubkeyAt env child i) with
    | none => exact ⟨w, rfl, inv, rfl⟩
    | some pair =>
      have pair' := correct_deriveFalcon correct derived
      refine ⟨_, rfl, ?_, rfl⟩
      rw [setPQCPublicKey_eq pair']
      exact inv.storePqcKey cached new (.falcon derived rfl)
  · cases derived : env.crypto.deriveDilithium (child i) env.desc.id i (pubkeyAt env child i) with
    | none => exact ⟨w, rfl, inv, rfl⟩
    | some pair =>
      obtain ⟨pub_ne, priv_ne⟩ := (correct_deriveDilithium correct derived).ne_nil (by decide)
      cases encrypted : w.hasEncryptionKeys with
      | true =>
        obtain ⟨secret, encrypts, decrypts⟩ := wpkh.inverts _ priv_ne
          (env.crypto.getHash (pubkeyAt env child i))
        have own : OwnCryptedPqcKey env child masterKey i (pair.1, secret) :=
          ⟨pair.2, derived, decrypts⟩
        refine ⟨(w.storeCryptedPqcKey env (pubkeyAt env child i) (pair.1, secret)
          ).registerHybrid env (pubkeyAt env child i) pair.1 i, ?_, ?_, rfl⟩
        · simp only [unlocked encrypted, encrypts, if_true]
        · exact inv.storeCryptedPqcKey cached encrypted new own
      | false =>
        refine ⟨_, rfl, ?_, rfl⟩
        rw [setPQCKey_eq pub_ne priv_ne]
        exact inv.storePqcKey cached new (.dilithium encrypted derived)

theorem OwnedWith.topUpPubkey (inv : OwnedWith env masterKey root child cache w)
    (wpkh : Wpkh env child masterKey root) (correct : signer.Correct env.crypto) {i : Nat}
    (cached : env.desc.expandFromCache cache i = true) :
    ∃ w', SpkMan.topUpPubkey env config i (w.privKeysAt env config (w.getKeys env) i) w
        (pubkeyAt env child i) = (w', true) ∧
      OwnedWith env masterKey root child cache w' ∧ w'.cache = w.cache := by
  unfold SpkMan.topUpPubkey
  split
  · exact ⟨w, rfl, inv, rfl⟩
  · have added := inv.addPubkey cached
    dsimp only
    split
    · exact ⟨_, rfl, added, rfl⟩
    next derives =>
      simp only [not_or, Bool.not_eq_false] at derives
      obtain ⟨enabled, fresh⟩ := derives
      split
      · exact ⟨_, rfl, added, rfl⟩
      next ecdsaKey found =>
        obtain ⟨rfl, unlocked⟩ := added.ecdsaKeyFor_eq wpkh enabled found
        exact added.topUpPqcKey wpkh correct cached (pqcPubkeyOf_eq_none.mpr fresh) unlocked

theorem expandFromCache_expandIndex {provider : KeyMap} {i : Nat} {items : Option Cache}
    (expanded : w.expandIndex env provider i = some items) :
    env.desc.expandFromCache (items.elim w.cache (env.desc.merge w.cache)) i = true := by
  unfold expandIndex at expanded
  split at expanded
  next known =>
    cases expanded
    exact known
  · obtain ⟨added, expands, rfl⟩ := Option.map_eq_some_iff.mp expanded
    exact env.desc.expandFromCache_expand _ _ _ _ expands

def indexDone (env : WalletEnv Cache) (items : Option Cache) (w : SpkMan Cache) : SpkMan Cache :=
  { items.elim w (w.mergeCache env) with
    mCachedCount := (items.elim w (w.mergeCache env)).mCachedCount + 1 }

theorem Owned.topUpIndex_eq (inv : Owned env masterKey root child w)
    (wpkh : Wpkh env child masterKey root) (correct : signer.Correct env.crypto) {i : Nat}
    {items : Option Cache} (expanded : w.expandIndex env (w.getKeys env) i = some items) :
    ∃ v, SpkMan.topUpPubkey env config i
          ((w.addScripts env i).privKeysAt env config (w.getKeys env) i) (w.addScripts env i)
          (pubkeyAt env child i) = (v, true) ∧
      OwnedWith env masterKey root child (items.elim w.cache (env.desc.merge w.cache)) v ∧
      v.cache = w.cache ∧
      SpkMan.topUpIndex env config (w.getKeys env) w i = (v.indexDone env items, true) := by
  have cached := expandFromCache_expandIndex expanded
  have grown : OwnedWith env masterKey root child
      (items.elim w.cache (env.desc.merge w.cache)) w := by
    cases items with
    | none => exact inv
    | some items => exact inv.cache_mono fun j => env.desc.expandFromCache_merge _ _ j
  have scripts : OwnedWith env masterKey root child
      (items.elim w.cache (env.desc.merge w.cache)) (w.addScripts env i) := by
    rw [addScripts, wpkh.scripts]
    exact grown.insertScript cached (.inl rfl)
  obtain ⟨v, done, inv', sameCache⟩ :=
    @OwnedWith.topUpPubkey _ _ _ _ _ _ _ _ config scripts wpkh correct i cached
  refine ⟨v, done, inv', sameCache, ?_⟩
  have looped : loop (SpkMan.topUpPubkey env config i
      ((w.addScripts env i).privKeysAt env config (w.getKeys env) i)) (env.desc.pubkeys i)
      (w.addScripts env i) = (v, true) := by
    rw [wpkh.pubkeys, loop_cons_of_ok (by exact congrArg Prod.snd done), loop_nil]
    exact congrArg (fun result => (result.1, true)) done
  unfold SpkMan.topUpIndex
  rw [expanded]
  dsimp only
  rw [looped]
  rfl

/-- **One index of a top-up keeps the invariant.** -/
theorem Owned.topUpIndex (inv : Owned env masterKey root child w)
    (wpkh : Wpkh env child masterKey root) (correct : signer.Correct env.crypto) (i : Nat) :
    Owned env masterKey root child (topUpIndex env config (w.getKeys env) w i).1 := by
  cases expanded : w.expandIndex env (w.getKeys env) i with
  | none =>
    unfold SpkMan.topUpIndex
    rwa [expanded]
  | some items =>
    obtain ⟨v, -, inv', sameCache, topped⟩ :=
      @Owned.topUpIndex_eq _ _ _ _ _ _ _ config inv wpkh correct _ _ expanded
    rw [topped]
    cases items with
    | none =>
      show OwnedWith env masterKey root child v.cache _
      rw [sameCache]
      exact { inv' with }
    | some items =>
      show OwnedWith env masterKey root child (env.desc.merge v.cache items) _
      rw [sameCache]
      exact { inv' with }

theorem Owned.topUp (inv : Owned env masterKey root child w) (wpkh : Wpkh env child masterKey root)
    (correct : signer.Correct env.crypto) {size : Nat} {ok : Bool}
    (topped : w.topUp env config size = .ok (w', ok)) : Owned env masterKey root child w' := by
  have fixed : Owned env masterKey root child (w.fixRange env) ∧
      (w.fixRange env).getKeys env = w.getKeys env := by
    unfold fixRange
    split
    · exact ⟨inv, rfl⟩
    · exact ⟨{ inv with }, rfl⟩
  have looped (indices : List Nat) : Owned env masterKey root child
      (loop (SpkMan.topUpIndex env config (w.getKeys env)) indices (w.fixRange env)).1 := by
    refine (loop_invariant (fun w' : SpkMan Cache => Owned env masterKey root child w' ∧
      w'.getKeys env = w.getKeys env) ?_ fixed).1
    rintro w' i - ⟨inv', same⟩
    rw [← same]
    refine ⟨inv'.topUpIndex wpkh correct i, ?_⟩
    exact (Atoms.sameKeys (topUpIndex_atoms (Nat.lt_succ_self i))).getKeys
  unfold SpkMan.topUp at topped
  dsimp only at topped
  have last := looped (List.range' w.mCachedCount (w.newRangeEnd env config size - w.mCachedCount))
  split at topped
  next failed =>
    cases topped
    rwa [failed] at last
  next done =>
    rw [done] at last
    split at topped
    · cases topped
      exact { last with }
    · cases topped

/-! ## Addresses -/

theorem nextHybrid_eq (wpkh : Wpkh env child masterKey root) (w : SpkMan Cache)
    (config : PQCConfig) : w.nextHybrid env config =
      if config.enableHybridSignatures then
        match w.mMapPqcKeys.lookup (idAt env child w.nextIndex) with
        | some hybrid =>
          if hybrid.mPqcPublicKey = [] then none
          else some (pubkeyAt env child w.nextIndex, hybrid.mPqcPublicKey)
        | none => none
      else none := by
  have keyid : keyHashOf (payToKeyHash (idAt env child w.nextIndex))
      = some (idAt env child w.nextIndex) := by
    have size : (idAt env child w.nextIndex).length = 20 := wpkh.hashSize _
    rw [keyHashOf, witnessProgram_payToKeyHash size]
    simp [size]
  have own : [pubkeyAt env child w.nextIndex].find?
      (env.crypto.getID · == idAt env child w.nextIndex)
        = some (pubkeyAt env child w.nextIndex) := by simp [idAt]
  unfold nextHybrid
  rw [wpkh.scripts, wpkh.pubkeys, List.headD_cons, keyid]
  grind

theorem nextHybrid_eq_some (wpkh : Wpkh env child masterKey root) {pubkey : CPubKey}
    {pqcPub : Bytes} (next : w.nextHybrid env config = some (pubkey, pqcPub)) :
    pubkey = pubkeyAt env child w.nextIndex ∧
      w.pqcPubkeyOf (idAt env child w.nextIndex) = some pqcPub := by
  grind [nextHybrid_eq, pqcPubkeyOf]

theorem Owned.take (inv : Owned env masterKey root child w) (wpkh : Wpkh env child masterKey root)
    (cached : env.desc.expandFromCache w.cache w.nextIndex = true) :
    Owned env masterKey root child (w.takeDestination env config).1 := by
  unfold takeDestination
  split
  · exact { inv with }
  next pubkey pqcPub next =>
    obtain ⟨rfl, stored⟩ := nextHybrid_eq_some wpkh next
    exact { inv.registerHybrid cached stored with }

theorem Owned.addresses (wpkh : Wpkh env child masterKey root)
    (correct : signer.Correct env.crypto) (config : PQCConfig) :
    Addresses env config (Owned env masterKey root child) where
  topUp inv topped := inv.topUp wpkh correct topped
  take inv cached := inv.take wpkh cached
  next _ inv := { inv with }
  write inv := { inv with }

/-! ## Private keys and the lock -/

theorem Owned.fresh (encrypted : Bool) (range : Nat × Nat × Nat) :
    Owned env masterKey root child
      (fresh env (bif encrypted then some masterKey else none) range) where
  dbMaster := rfl
  master := by cases encrypted <;> simp [SpkMan.fresh]
  root := .none rfl rfl rfl rfl
  scripts := .empty
  pubkeys := .empty
  pqcKeys := .empty
  cryptedPqc := .empty
  disjoint id listed := absurd listed (AList.notMem_empty id)
  noCrypted _ := rfl
  records := .empty
  cryptedRecords := .empty

theorem Owned.addKey (inv : Owned env masterKey root child w) (wpkh : Wpkh env child masterKey root)
    {key : CKey} (own : key = root) :
    Owned env masterKey root child (w.addDescriptorKey env key).1 := by
  subst own
  cases inv.root with
  | clear _ rootKey => grind [rootKey, mem_singleton_self, addDescriptorKey]
  | sealed _ _ _ _ cryptedRoot => grind [mem_singleton_self, addDescriptorKey]
  | none noKeys noDbKeys noCrypted noDbCrypted =>
    have unknown : ¬ (env.crypto.getID (env.crypto.getPubKey key) ∈ w.mMapKeys ∨
        env.crypto.getID (env.crypto.getPubKey key) ∈ w.mMapCryptedKeys) := by
      simp [noKeys, noCrypted]
    rw [addDescriptorKey, if_neg unknown]
    split
    next encrypted =>
      split
      · exact inv
      next unlocked =>
        have master : w.vMasterKey = masterKey := by
          refine inv.master.resolve_left fun empty => unlocked ?_
          simp [isLocked, encrypted, empty]
        obtain ⟨secret, encrypts, decrypts⟩ := wpkh.inverts _ wpkh.rootValid.keydata_ne
          (env.crypto.getHash (env.crypto.getPubKey key))
        rw [← master] at encrypts
        rw [encrypts]
        have erased : w.db.keys.erase (env.crypto.getPubKey key) = ∅ := by
          rw [noDbKeys]
          rfl
        have written : w.db.cryptedKeys.insert (env.crypto.getPubKey key) secret
            = AList.singleton (env.crypto.getPubKey key) secret := by
          rw [noDbCrypted]
          rfl
        exact { inv with
          root := .sealed encrypted noKeys erased (wpkh.rootValid.decryptKey_eq decrypts)
            (by rw [noCrypted]; rfl) written }
    next unencrypted =>
      exact { inv with
        root := .clear (by simpa using unencrypted) (by rw [noKeys]; rfl) (by rw [noDbKeys]; rfl)
          noCrypted noDbCrypted }

theorem Owned.lock (inv : Owned env masterKey root child w) :
    Owned env masterKey root child w.lock :=
  { inv with master := .inl rfl }

theorem OwnedWith.migrate_eq (inv : OwnedWith env masterKey root child cache w) :
    (w.migrate env masterKey).1 = w := by
  unfold migrate
  split
  next present =>
    obtain ⟨encrypted, -⟩ := Bool.and_eq_true_iff.mp present
    have refused : ∀ entry ∈ w.mMapPqcKeys.entries,
        migratePqcKey env masterKey w entry = (w, false) := by
      intro entry listed
      obtain ⟨i, -, -, own⟩ := inv.pqcKeys _ _ (lookup_of_mem_entries listed)
      have pubOnly : entry.2.mPqcPrivateKey = [] := by
        cases own with
        | falcon _ pubOnly => exact pubOnly
        | dilithium unencrypted => exact absurd (encrypted.symm.trans unencrypted) (by decide)
      simp [migratePqcKey, sealPqcKey, HybridKey.getPQCPrivateKey, pubOnly]
    cases entries : w.mMapPqcKeys.entries with
    | nil => simp [entries] at present
    | cons first rest =>
      have fails := refused first (by rw [entries]; exact List.mem_cons_self)
      rw [loop_cons_of_fail (by rw [fails]), fails]
  · rfl

theorem Owned.unlock (inv : Owned env masterKey root child w) :
    Owned env masterKey root child (w.unlock env masterKey) := by
  have checked : ∃ checked, (w.checkDecryptionKey env masterKey).1
      = { w with mDecryptionThoroughlyChecked := checked } := by
    obtain ⟨checked, frame | frame⟩ := @checkDecryptionKey_frame _ env masterKey w
    · exact ⟨_, frame⟩
    · exact ⟨checked, by rw [frame, inv.migrate_eq]⟩
  obtain ⟨checked, frame⟩ := checked
  unfold SpkMan.unlock
  split
  · split
    next done =>
      rw [done] at frame
      obtain rfl : _ = _ := frame
      exact { inv with master := .inr rfl }
    next failed =>
      rw [failed] at frame
      obtain rfl : _ = _ := frame
      exact { inv with }
  · exact inv

theorem Owned.update (inv : Owned env masterKey root child w) (range : Nat × Nat × Nat) :
    Owned env masterKey root child (w.updateWalletDescriptor env range) :=
  { inv with scripts := .empty, pubkeys := .empty }

/-! ## Records -/

theorem Wpkh.eq_of_getID (wpkh : Wpkh env child masterKey root) {pubkey other : CPubKey}
    (own : ∃ i, env.desc.Has i ∧ pubkey = pubkeyAt env child i)
    (own' : ∃ i, env.desc.Has i ∧ other = pubkeyAt env child i)
    (same : env.crypto.getID pubkey = env.crypto.getID other) : pubkey = other := by
  obtain ⟨i, has, rfl⟩ := own
  obtain ⟨j, has', rfl⟩ := own'
  rw [wpkh.distinct has has' same]

theorem OwnedWith.record (inv : OwnedWith env masterKey root child cache w)
    (wpkh : Wpkh env child masterKey root) {pubkey : CPubKey} {record : Bytes × Bytes}
    (written : w.db.pqcKeys.lookup pubkey = some record) :
    ∃ i, env.desc.Has i ∧ pubkey = pubkeyAt env child i ∧
      OwnPqcKey env child w.hasEncryptionKeys i record.1 record.2 := by
  obtain ⟨⟨i, has, rfl⟩, found⟩ := inv.records _ _ written
  obtain ⟨j, has', same, own⟩ := inv.pqcKeys _ _ found
  obtain rfl := wpkh.distinct has has' same
  exact ⟨i, has, rfl, own⟩

theorem OwnedWith.cryptedRecord (inv : OwnedWith env masterKey root child cache w)
    (wpkh : Wpkh env child masterKey root) {pubkey : CPubKey} {pair : Bytes × Bytes}
    (written : w.db.cryptedPqcKeys.lookup pubkey = some pair) :
    ∃ i, env.desc.Has i ∧ pubkey = pubkeyAt env child i ∧
      OwnCryptedPqcKey env child masterKey i pair := by
  obtain ⟨⟨i, has, rfl⟩, found⟩ := inv.cryptedRecords _ _ written
  obtain ⟨j, has', same, own⟩ := inv.cryptedPqc _ _ found
  obtain rfl := wpkh.distinct has has' same
  exact ⟨i, has, rfl, own⟩

theorem OwnedWith.record_disjoint (inv : OwnedWith env masterKey root child cache w)
    {pubkey : CPubKey} {record pair : Bytes × Bytes}
    (written : w.db.pqcKeys.lookup pubkey = some record)
    (writtenCrypted : w.db.cryptedPqcKeys.lookup pubkey = some pair) : False := by
  have found := (inv.records _ _ written).2
  have foundCrypted := (inv.cryptedRecords _ _ writtenCrypted).2
  exact inv.disjoint _ (mem_of_lookup found) (mem_of_lookup foundCrypted)

theorem pqcKeyOfRecord_eq (correct : signer.Correct env.crypto) {encrypted : Bool} {i : Nat}
    {record : Bytes × Bytes} (own : OwnPqcKey env child encrypted i record.1 record.2) :
    pqcKeyOfRecord record = ⟨record.1, record.2⟩ := by
  cases own with
  | falcon derived pubOnly =>
    rw [pqcKeyOfRecord, if_pos pubOnly, pubOnly,
      setPQCPublicKey_eq (correct_deriveFalcon correct derived)]
  | dilithium _ derived =>
    obtain ⟨pub_ne, priv_ne⟩ := (correct_deriveDilithium correct derived).ne_nil (by decide)
    rw [pqcKeyOfRecord, if_neg priv_ne, setPQCKey_eq pub_ne priv_ne]

/-! ## Loading -/

variable (env child) in
structure Loading (db : WalletDB Cache) (w : SpkMan Cache) : Prop where
  scripts : AllEntries (fun script i => env.desc.expandFromCache w.cache i = true ∧
    OwnScript env child w script i) w.mMapScriptPubKeys
  pubkeys : AllEntries (fun pubkey i => env.desc.expandFromCache w.cache i = true ∧
    pubkey = pubkeyAt env child i) w.mMapPubkeys
  pqcKeys : AllEntries (fun id hybrid => ∃ pubkey record, db.pqcKeys.lookup pubkey = some record ∧
    id = env.crypto.getID pubkey ∧ hybrid = ⟨record.1, record.2⟩) w.mMapPqcKeys
  cryptedPqc : AllEntries (fun id pair => ∃ pubkey, db.cryptedPqcKeys.lookup pubkey = some pair ∧
    id = env.crypto.getID pubkey) w.mMapCryptedPqcKeys

theorem Loading.setCacheIndex {db : WalletDB Cache} (loading : Loading env child db w)
    (wpkh : Wpkh env child masterKey root) (i : Nat) :
    Loading env child db (setCacheIndex env w i).1 := by
  unfold SpkMan.setCacheIndex
  rw [wpkh.scripts, wpkh.pubkeys]
  split
  next cached =>
    by_cases listed : payToKeyHash (idAt env child i) ∈ w.mMapScriptPubKeys
    · grind [setCacheScript, loop_cons_of_fail]
    · have entered : setCacheScript i w (payToKeyHash (idAt env child i))
          = ({ w with mMapScriptPubKeys :=
                w.mMapScriptPubKeys.insert (payToKeyHash (idAt env child i)) i }, true) := by
        rw [setCacheScript, if_neg listed]
      rw [loop_cons_of_ok (by rw [entered]), loop_nil, entered]
      dsimp only
      rw [List.foldl_cons, List.foldl_nil, setCachePubkey]
      have scripts := loading.scripts.insert ⟨cached, .inl rfl⟩
      split
      · exact { loading with scripts }
      · exact { loading with scripts, pubkeys := loading.pubkeys.insert ⟨cached, rfl⟩ }
  · exact loading

theorem Loading.registerLoaded {db : WalletDB Cache} (loading : Loading env child db w)
    {keyid : CKeyID} {pqcPub : Bytes} (stored : w.pqcPubkeyOf keyid = some pqcPub) :
    Loading env child db (registerLoaded env keyid pqcPub w) := by
  unfold SpkMan.registerLoaded
  split
  · exact loading
  next entry found =>
    obtain ⟨cached, own⟩ :=
      loading.pubkeys _ _ (lookup_of_mem_entries (List.mem_of_find?_eq_some found))
    have same : idAt env child entry.2 = keyid := by
      rw [idAt, ← own]
      simpa using List.find?_some found
    rw [own]
    refine { loading with scripts := loading.scripts.insert ⟨cached, .inr ⟨pqcPub, ?_, rfl⟩⟩ }
    rwa [same]

section

variable {w₀ : SpkMan Cache} (inv : OwnedWith env masterKey root child cache w₀)
  (wpkh : Wpkh env child masterKey root)
include inv wpkh

theorem OwnedWith.record_unique {pubkey other : CPubKey} {record record' : Bytes × Bytes}
    (written : w₀.db.pqcKeys.lookup pubkey = some record)
    (written' : w₀.db.pqcKeys.lookup other = some record')
    (same : env.crypto.getID other = env.crypto.getID pubkey) : other = pubkey ∧ record' = record := by
  obtain rfl := Wpkh.eq_of_getID wpkh (inv.records _ _ written').1 (inv.records _ _ written).1 same
  exact ⟨rfl, Option.some.inj (written'.symm.trans written)⟩

theorem OwnedWith.cryptedRecord_unique {pubkey other : CPubKey} {pair pair' : Bytes × Bytes}
    (written : w₀.db.cryptedPqcKeys.lookup pubkey = some pair)
    (written' : w₀.db.cryptedPqcKeys.lookup other = some pair')
    (same : env.crypto.getID other = env.crypto.getID pubkey) : other = pubkey ∧ pair' = pair := by
  obtain rfl := Wpkh.eq_of_getID wpkh (inv.cryptedRecords _ _ written').1
    (inv.cryptedRecords _ _ written).1 same
  exact ⟨rfl, Option.some.inj (written'.symm.trans written)⟩

theorem OwnedWith.record_ne {pubkey other : CPubKey} {record pair : Bytes × Bytes}
    (written : w₀.db.pqcKeys.lookup pubkey = some record)
    (crypted : w₀.db.cryptedPqcKeys.lookup other = some pair) :
    env.crypto.getID other ≠ env.crypto.getID pubkey := by
  intro same
  obtain rfl := Wpkh.eq_of_getID wpkh (inv.cryptedRecords _ _ crypted).1 (inv.records _ _ written).1 same
  exact inv.record_disjoint written crypted

theorem OwnedWith.pqcKeyOfRecord (correct : signer.Correct env.crypto) {pubkey : CPubKey}
    {record : Bytes × Bytes} (written : w₀.db.pqcKeys.lookup pubkey = some record) :
    pqcKeyOfRecord record = ⟨record.1, record.2⟩ := by
  obtain ⟨i, -, -, own⟩ := inv.record wpkh written
  exact pqcKeyOfRecord_eq correct own

theorem Loading.addPQCKey (correct : signer.Correct env.crypto)
    (loading : Loading env child w₀.db w) {entry : (_ : CPubKey) × (Bytes × Bytes)}
    (listed : entry ∈ w₀.db.pqcKeys.entries) :
    Loading env child w₀.db (w.addPQCKey env entry) := by
  obtain ⟨pubkey, record⟩ := entry
  have written : w₀.db.pqcKeys.lookup pubkey = some record := lookup_of_mem_entries listed
  unfold SpkMan.addPQCKey
  rw [inv.pqcKeyOfRecord wpkh correct written]
  refine Loading.registerLoaded ?_ ?_
  · refine { loading with
      scripts := loading.scripts.mono fun _ _ own => ⟨own.1, own.2.mono ?_⟩
      pqcKeys := loading.pqcKeys.insert ⟨pubkey, record, written, rfl, rfl⟩
      cryptedPqc := loading.cryptedPqc.erase _ }
    intro id pqcPub stored
    unfold pqcPubkeyOf at stored ⊢
    by_cases same : id = env.crypto.getID pubkey
    · subst same
      rw [AList.lookup_insert]
      split at stored
      next found =>
        obtain ⟨other, record', written', same, rfl⟩ := loading.pqcKeys _ _ found
        obtain ⟨-, rfl⟩ := inv.record_unique wpkh written written' same.symm
        exact stored
      · obtain ⟨pair, found, -⟩ := Option.map_eq_some_iff.mp stored
        obtain ⟨other, crypted, same⟩ := loading.cryptedPqc _ _ found
        exact absurd same.symm (inv.record_ne wpkh written crypted)
    · dsimp only
      rwa [AList.lookup_insert_ne same, AList.lookup_erase_ne same]
  · simp [pqcPubkeyOf]

theorem Loading.addCryptedPQCKey (loading : Loading env child w₀.db w)
    {entry : (_ : CPubKey) × (Bytes × Bytes)} (listed : entry ∈ w₀.db.cryptedPqcKeys.entries) :
    Loading env child w₀.db (w.addCryptedPQCKey env entry) := by
  obtain ⟨pubkey, pair⟩ := entry
  have written : w₀.db.cryptedPqcKeys.lookup pubkey = some pair := lookup_of_mem_entries listed
  unfold SpkMan.addCryptedPQCKey
  refine Loading.registerLoaded ?_ ?_
  · refine { loading with
      scripts := loading.scripts.mono fun _ _ own => ⟨own.1, own.2.mono ?_⟩
      pqcKeys := loading.pqcKeys.erase _
      cryptedPqc := loading.cryptedPqc.insert ⟨pubkey, written, rfl⟩ }
    intro id pqcPub stored
    unfold pqcPubkeyOf at stored ⊢
    by_cases same : id = env.crypto.getID pubkey
    · subst same
      rw [AList.lookup_erase, AList.lookup_insert]
      split at stored
      next found =>
        obtain ⟨other, record, written', same, -⟩ := loading.pqcKeys _ _ found
        exact absurd same (inv.record_ne wpkh written' written)
      · obtain ⟨pair', found, rfl⟩ := Option.map_eq_some_iff.mp stored
        obtain ⟨other, written', same⟩ := loading.cryptedPqc _ _ found
        obtain ⟨-, rfl⟩ := inv.cryptedRecord_unique wpkh written written' same.symm
        rfl
    · dsimp only
      rwa [AList.lookup_erase_ne same, AList.lookup_insert_ne same]
  · simp [pqcPubkeyOf]

theorem OwnedWith.foldl_addPQCKey (correct : signer.Correct env.crypto) {pubkey : CPubKey}
    {record : Bytes × Bytes} (written : w₀.db.pqcKeys.lookup pubkey = some record)
    (start : SpkMan Cache) :
    (w₀.db.pqcKeys.entries.foldl (SpkMan.addPQCKey env) start).mMapPqcKeys.lookup
      (env.crypto.getID pubkey) = some ⟨record.1, record.2⟩ := by
  have loads (w : SpkMan Cache) : (w.addPQCKey env ⟨pubkey, record⟩).mMapPqcKeys.lookup
      (env.crypto.getID pubkey) = some ⟨record.1, record.2⟩ := by
    obtain ⟨scripts, frame⟩ := @addPQCKey_frame _ env w ⟨pubkey, record⟩
    rw [frame, inv.pqcKeyOfRecord wpkh correct written]
    exact AList.lookup_insert _
  refine foldl_entries_of_lookup (fun _ => True)
    (fun w : SpkMan Cache => w.mMapPqcKeys.lookup (env.crypto.getID pubkey)
      = some ⟨record.1, record.2⟩) (fun _ _ _ _ => trivial) written (fun w _ => loads w) ?_ trivial
  rintro w ⟨other, record'⟩ listed - found
  by_cases same : env.crypto.getID other = env.crypto.getID pubkey
  · obtain ⟨rfl, rfl⟩ := inv.record_unique wpkh written (lookup_of_mem_entries listed) same
    exact loads w
  · obtain ⟨scripts, frame⟩ := @addPQCKey_frame _ env w ⟨other, record'⟩
    simp [frame, AList.lookup_insert_ne (Ne.symm same), found]

theorem OwnedWith.foldl_addCryptedPQCKey_keeps {pubkey : CPubKey} {record : Bytes × Bytes}
    (written : w₀.db.pqcKeys.lookup pubkey = some record) {start : SpkMan Cache}
    {hybrid : HybridKey} (found : start.mMapPqcKeys.lookup (env.crypto.getID pubkey) = some hybrid) :
    (w₀.db.cryptedPqcKeys.entries.foldl (SpkMan.addCryptedPQCKey env) start).mMapPqcKeys.lookup
      (env.crypto.getID pubkey) = some hybrid := by
  refine List.foldlRecOn (motive := fun w : SpkMan Cache =>
    w.mMapPqcKeys.lookup (env.crypto.getID pubkey) = some hybrid) _ _ found ?_
  intro w found entry listed
  obtain ⟨scripts, frame⟩ := @addCryptedPQCKey_frame _ env w entry
  rw [frame]
  show (w.mMapPqcKeys.erase _).lookup _ = _
  rw [AList.lookup_erase_ne (inv.record_ne wpkh written (lookup_of_mem_entries listed)).symm, found]

theorem OwnedWith.foldl_addCryptedPQCKey {pubkey : CPubKey} {pair : Bytes × Bytes}
    (written : w₀.db.cryptedPqcKeys.lookup pubkey = some pair) (start : SpkMan Cache) :
    (w₀.db.cryptedPqcKeys.entries.foldl (SpkMan.addCryptedPQCKey env) start
      ).mMapCryptedPqcKeys.lookup (env.crypto.getID pubkey) = some pair := by
  have loads (w : SpkMan Cache) : (w.addCryptedPQCKey env ⟨pubkey, pair⟩).mMapCryptedPqcKeys.lookup
      (env.crypto.getID pubkey) = some pair := by
    obtain ⟨scripts, frame⟩ := @addCryptedPQCKey_frame _ env w ⟨pubkey, pair⟩
    rw [frame]
    exact AList.lookup_insert _
  refine foldl_entries_of_lookup (fun _ => True)
    (fun w : SpkMan Cache => w.mMapCryptedPqcKeys.lookup (env.crypto.getID pubkey) = some pair)
    (fun _ _ _ _ => trivial) written (fun w _ => loads w) ?_ trivial
  rintro w ⟨other, pair'⟩ listed - found
  by_cases same : env.crypto.getID other = env.crypto.getID pubkey
  · obtain ⟨rfl, rfl⟩ := inv.cryptedRecord_unique wpkh written (lookup_of_mem_entries listed) same
    exact loads w
  · obtain ⟨scripts, frame⟩ := @addCryptedPQCKey_frame _ env w ⟨other, pair'⟩
    simp [frame, AList.lookup_insert_ne (Ne.symm same), found]

end

theorem OwnedWith.loadedRoot (inv : OwnedWith env masterKey root child cache w)
    {cached : SpkMan Cache} (noKeys : cached.mMapKeys = ∅) (noCrypted : cached.mMapCryptedKeys = ∅) :
    ∃ keys crypted, w.db.cryptedKeys.entries.foldl (addCryptedKey env)
        (w.db.keys.entries.foldl (SpkMan.addKey env) cached)
        = { cached with mMapKeys := keys, mMapCryptedKeys := crypted } ∧
      HoldsRoot env masterKey root w.db.hasMasterKey keys w.db.keys crypted w.db.cryptedKeys := by
  rw [inv.dbMaster]
  cases inv.root with
  | none _ noDbKeys _ noDbCrypted =>
    refine ⟨cached.mMapKeys, cached.mMapCryptedKeys, ?_,
      .none noKeys noDbKeys noCrypted noDbCrypted⟩
    rw [noDbKeys, noDbCrypted]
    rfl
  | clear unencrypted _ dbRootKey _ noDbCrypted =>
    refine ⟨AList.singleton (env.crypto.getID (env.crypto.getPubKey root)) root, ∅, ?_,
      .clear unencrypted rfl dbRootKey rfl noDbCrypted⟩
    rw [dbRootKey, noDbCrypted, ← noCrypted]
    simp [SpkMan.addKey, noKeys]
  | @sealed secret isEncrypted _ noDbKeys decrypts _ dbCryptedRoot =>
    refine ⟨∅, AList.singleton (env.crypto.getID (env.crypto.getPubKey root))
      (env.crypto.getPubKey root, secret), ?_,
      .sealed isEncrypted rfl noDbKeys decrypts rfl dbCryptedRoot⟩
    rw [noDbKeys, dbCryptedRoot, ← noKeys]
    show addCryptedKey env cached ⟨env.crypto.getPubKey root, secret⟩ = _
    rw [addCryptedKey, if_neg (by simp [noKeys]), noCrypted]
    rfl

theorem Loading.owned (inv : Owned env masterKey root child w)
    (wpkh : Wpkh env child masterKey root) (loading : Loading env child w.db w')
    (db : w'.db = w.db) (encrypted : w'.hasEncryptionKeys = w.db.hasMasterKey)
    (locked : w'.vMasterKey = [])
    (holds : HoldsRoot env masterKey root w.db.hasMasterKey w'.mMapKeys w.db.keys w'.mMapCryptedKeys
      w.db.cryptedKeys)
    (records : ∀ pubkey record, w.db.pqcKeys.lookup pubkey = some record →
      w'.mMapPqcKeys.lookup (env.crypto.getID pubkey) = some ⟨record.1, record.2⟩)
    (cryptedRecords : ∀ pubkey pair, w.db.cryptedPqcKeys.lookup pubkey = some pair →
      w'.mMapCryptedPqcKeys.lookup (env.crypto.getID pubkey) = some pair) :
    Owned env masterKey root child w' where
  dbMaster := by rw [db, encrypted]
  master := .inl locked
  root := by rwa [db, encrypted]
  scripts := loading.scripts
  pubkeys := loading.pubkeys
  pqcKeys := by
    rw [encrypted, inv.dbMaster]
    refine loading.pqcKeys.mono ?_
    rintro id hybrid ⟨pubkey, record, written, rfl, rfl⟩
    obtain ⟨i, has, rfl, own⟩ := inv.record wpkh written
    exact ⟨i, has, rfl, own⟩
  cryptedPqc := by
    refine loading.cryptedPqc.mono ?_
    rintro id pair ⟨pubkey, written, rfl⟩
    obtain ⟨i, has, rfl, own⟩ := inv.cryptedRecord wpkh written
    exact ⟨i, has, rfl, own⟩
  disjoint := by
    intro id plainListed cryptedListed
    obtain ⟨hybrid, found⟩ := Option.isSome_iff_exists.mp (AList.lookup_isSome.mpr plainListed)
    obtain ⟨pair, found'⟩ := Option.isSome_iff_exists.mp (AList.lookup_isSome.mpr cryptedListed)
    obtain ⟨pubkey, record, written, rfl, -⟩ := loading.pqcKeys _ _ found
    obtain ⟨other, written', same⟩ := loading.cryptedPqc _ _ found'
    exact inv.record_ne wpkh written written' same.symm
  noCrypted := by
    rw [encrypted, inv.dbMaster]
    intro unencrypted
    refine eq_empty_of_lookup fun id => Option.eq_none_iff_forall_ne_some.mpr fun pair found => ?_
    obtain ⟨pubkey, written, -⟩ := loading.cryptedPqc _ _ found
    have found := (inv.cryptedRecords _ _ written).2
    simp [inv.noCrypted unencrypted] at found
  records := by
    rw [db]
    exact fun pubkey record written => ⟨(inv.records _ _ written).1, records _ _ written⟩
  cryptedRecords := by
    rw [db]
    exact fun pubkey pair written =>
      ⟨(inv.cryptedRecords _ _ written).1, cryptedRecords _ _ written⟩

def SameRest (start w : SpkMan Cache) : Prop := ∃ scripts pqcKeys cryptedPqc, w =
  { start with
    mMapScriptPubKeys := scripts, mMapPqcKeys := pqcKeys, mMapCryptedPqcKeys := cryptedPqc }

theorem Loading.loadPqcKeys (inv : Owned env masterKey root child w)
    (wpkh : Wpkh env child masterKey root) (correct : signer.Correct env.crypto)
    {start : SpkMan Cache} (loading : Loading env child w.db start) :
    Loading env child w.db (w.db.cryptedPqcKeys.entries.foldl (SpkMan.addCryptedPQCKey env)
        (w.db.pqcKeys.entries.foldl (SpkMan.addPQCKey env) start)) ∧
      SameRest start (w.db.cryptedPqcKeys.entries.foldl (SpkMan.addCryptedPQCKey env)
        (w.db.pqcKeys.entries.foldl (SpkMan.addPQCKey env) start)) := by
  have plain : Loading env child w.db (w.db.pqcKeys.entries.foldl (SpkMan.addPQCKey env) start) ∧
      SameRest start (w.db.pqcKeys.entries.foldl (SpkMan.addPQCKey env) start) := by
    refine List.foldlRecOn (motive := fun v => Loading env child w.db v ∧ SameRest start v) _ _
      ⟨loading, _, _, _, rfl⟩ ?_
    rintro v ⟨loading, scripts, pqcKeys, cryptedPqc, rest⟩ entry written
    refine ⟨loading.addPQCKey inv wpkh correct written, ?_⟩
    obtain ⟨scripts', frame⟩ := @addPQCKey_frame _ env v entry
    rw [frame, rest]
    exact ⟨_, _, _, rfl⟩
  refine List.foldlRecOn (motive := fun v => Loading env child w.db v ∧ SameRest start v) _ _ plain ?_
  rintro v ⟨loading, scripts, pqcKeys, cryptedPqc, rest⟩ entry written
  refine ⟨loading.addCryptedPQCKey inv wpkh written, ?_⟩
  obtain ⟨scripts', frame⟩ := @addCryptedPQCKey_frame _ env v entry
  rw [frame, rest]
  exact ⟨_, _, _, rfl⟩

/-- **What is loaded has the invariant.** -/
theorem Owned.load (inv : Owned env masterKey root child w) (wpkh : Wpkh env child masterKey root)
    (correct : signer.Correct env.crypto) (loaded : load env w.db = some w') :
    Owned env masterKey root child w' := by
  obtain ⟨range, cached, -, done, rfl⟩ := load_eq_some loaded
  obtain ⟨scripts, pubkeys, count, frame⟩ := @setCache_frame _ env
    (List.range' range.1 (range.2.1 - range.1)) (empty w.db range)
  have listed : Loading env child w.db cached := by
    have start : Loading env child w.db (empty w.db range) := ⟨.empty, .empty, .empty, .empty⟩
    have looped : Loading env child w.db (loop (setCacheIndex env)
        (List.range' range.1 (range.2.1 - range.1)) (empty w.db range)).1 :=
      loop_invariant _ (fun _ i _ loading => loading.setCacheIndex wpkh i) start
    rwa [done] at looped
  rw [done] at frame
  obtain rfl : cached = _ := frame
  obtain ⟨keys, crypted, keyed, holds⟩ := @OwnedWith.loadedRoot _ _ _ _ _ _ _ inv
    { empty w.db range with
      mMapScriptPubKeys := scripts, mMapPubkeys := pubkeys, mCachedCount := count } rfl rfl
  rw [keyed]
  let start : SpkMan Cache :=
    { empty w.db range with
      mMapScriptPubKeys := scripts, mMapPubkeys := pubkeys, mCachedCount := count
      mMapKeys := keys, mMapCryptedKeys := crypted }
  have keyedLoading : Loading env child w.db start := { listed with }
  obtain ⟨loading, scripts', pqcKeys, cryptedPqc, rest⟩ := keyedLoading.loadPqcKeys inv wpkh correct
  refine loading.owned inv wpkh ?_ ?_ ?_ ?_ ?_ ?_
  · rw [rest]
    rfl
  · rw [rest]
    rfl
  · rw [rest]
    rfl
  · rwa [rest]
  · intro pubkey record written
    exact inv.foldl_addCryptedPQCKey_keeps wpkh written
      (inv.foldl_addPQCKey wpkh correct written start)
  · intro pubkey pair written
    exact inv.foldl_addCryptedPQCKey wpkh written _

/-! ## Encryption -/

theorem OwnedWith.findPubkey_eq (inv : OwnedWith env masterKey root child cache w)
    (wpkh : Wpkh env child masterKey root) {i : Nat} (has : env.desc.Has i) {pubkey : CPubKey}
    (found : w.findPubkey env (idAt env child i) = some pubkey) : pubkey = pubkeyAt env child i := by
  obtain ⟨entry, listed, rfl⟩ := Option.map_eq_some_iff.mp found
  have same : env.crypto.getID entry.1 = idAt env child i := by simpa using List.find?_some listed
  obtain ⟨cached, own⟩ :=
    inv.pubkeys _ _ (lookup_of_mem_entries (List.mem_of_find?_eq_some listed))
  rw [own] at same
  rw [own, wpkh.distinct ⟨cache, cached⟩ has same]

theorem OwnedWith.sealPqcKey (inv : OwnedWith env masterKey root child cache w)
    (wpkh : Wpkh env child masterKey root) {entry : (_ : CKeyID) × HybridKey}
    (listed : entry ∈ w.mMapPqcKeys.entries) {pubkey : CPubKey} {secret : Bytes}
    (sealed : w.sealPqcKey env masterKey entry = some (pubkey, secret)) :
    ∃ i, env.desc.Has i ∧ pubkey = pubkeyAt env child i ∧ entry.1 = idAt env child i ∧
      OwnCryptedPqcKey env child masterKey i (entry.2.mPqcPublicKey, secret) := by
  obtain ⟨present, found, encrypts⟩ := sealPqcKey_eq_some sealed
  obtain ⟨i, has, id, own⟩ := inv.pqcKeys _ _ (lookup_of_mem_entries listed)
  rw [id] at found
  obtain rfl := inv.findPubkey_eq wpkh has found
  cases own with
  | falcon _ pubOnly => exact absurd pubOnly present
  | dilithium _ derived =>
    exact ⟨i, has, rfl, id, _, derived, wpkh.inverts.decrypts present encrypts⟩

variable (env masterKey child) in
structure Sealing (w keyed v : SpkMan Cache) : Prop where
  rest : ∃ cryptedPqc pqcRecords cryptedRecords, v =
    { keyed with
      mMapCryptedPqcKeys := cryptedPqc
      db := { keyed.db with pqcKeys := pqcRecords, cryptedPqcKeys := cryptedRecords } }
  cryptedPqc : AllEntries (fun id pair => ∃ i, env.desc.Has i ∧ id = idAt env child i ∧
    OwnCryptedPqcKey env child masterKey i pair) v.mMapCryptedPqcKeys
  cryptedRecords : AllEntries (fun pubkey pair =>
    (∃ i, env.desc.Has i ∧ pubkey = pubkeyAt env child i) ∧
    v.mMapCryptedPqcKeys.lookup (env.crypto.getID pubkey) = some pair) v.db.cryptedPqcKeys
  records : ∀ pubkey record, v.db.pqcKeys.lookup pubkey = some record →
    w.db.pqcKeys.lookup pubkey = some record

theorem Sealing.encryptPqcKey {keyed v : SpkMan Cache} (inv : Owned env masterKey root child w)
    (wpkh : Wpkh env child masterKey root) (pubkeys : keyed.mMapPubkeys = w.mMapPubkeys)
    (sealing : Sealing env masterKey child w keyed v) {entry : (_ : CKeyID) × HybridKey}
    (listed : entry ∈ w.mMapPqcKeys.entries) :
    Sealing env masterKey child w keyed (encryptPqcKey env (fun _ => true) masterKey v entry).1 := by
  obtain ⟨cryptedPqc, pqcRecords, cryptedRecords, rest⟩ := sealing.rest
  have same : v.mMapPubkeys = w.mMapPubkeys := by
    rwa [rest]
  unfold SpkMan.encryptPqcKey
  rw [sealPqcKey_congr same]
  split
  · exact sealing
  next pubkey secret sealed =>
    obtain ⟨i, has, rfl, id, own⟩ := inv.sealPqcKey wpkh listed sealed
    rw [if_pos rfl, id]
    refine ⟨⟨_, _, _, by rw [rest]; rfl⟩, sealing.cryptedPqc.insert ⟨i, has, rfl, own⟩, ?_, ?_⟩
    · intro pubkey pair found
      rcases lookup_insert_cases found with ⟨rfl, rfl⟩ | ⟨different, found⟩
      · exact ⟨⟨i, has, rfl⟩, AList.lookup_insert _⟩
      · obtain ⟨owned, stored⟩ := sealing.cryptedRecords _ _ found
        refine ⟨owned, ?_⟩
        show (v.mMapCryptedPqcKeys.insert _ _).lookup _ = _
        rw [AList.lookup_insert_ne, stored]
        exact fun same => different (Wpkh.eq_of_getID wpkh owned ⟨i, has, rfl⟩ same)
    · intro pubkey record found
      exact sealing.records _ _ (lookup_of_lookup_erase found).2

theorem OwnedWith.keysEncrypted_eq (inv : OwnedWith env masterKey root child cache w)
    (wpkh : Wpkh env child masterKey root) (unencrypted : w.hasEncryptionKeys = false)
    {started : SpkMan Cache} (started_eq : started =
      { w with hasEncryptionKeys := true, db := { w.db with hasMasterKey := true } }) :
    ∃ dbKeys crypted dbCrypted, started.keysEncrypted env (fun _ => true) masterKey =
        { started with
          mMapKeys := ∅, mMapCryptedKeys := crypted
          db := { started.db with keys := dbKeys, cryptedKeys := dbCrypted } } ∧
      HoldsRoot env masterKey root true ∅ dbKeys crypted dbCrypted := by
  subst started_eq
  cases inv.root with
  | none noKeys noDbKeys noCrypted noDbCrypted =>
    refine ⟨∅, ∅, ∅, ?_, .none rfl rfl rfl rfl⟩
    rw [keysEncrypted_of_noKeys (by rw [noKeys]; rfl), ← noKeys, ← noDbKeys, ← noCrypted,
      ← noDbCrypted]
  | clear _ rootKey dbRootKey noCrypted noDbCrypted =>
    obtain ⟨secret, encrypts, decrypts⟩ := wpkh.inverts _ wpkh.rootValid.keydata_ne
      (env.crypto.getHash (env.crypto.getPubKey root))
    refine ⟨∅, AList.singleton (env.crypto.getID (env.crypto.getPubKey root))
      (env.crypto.getPubKey root, secret), AList.singleton (env.crypto.getPubKey root) secret, ?_,
      .sealed rfl rfl rfl (wpkh.rootValid.decryptKey_eq decrypts) rfl rfl⟩
    have entries : w.mMapKeys.entries
        = [⟨env.crypto.getID (env.crypto.getPubKey root), root⟩] := by rw [rootKey]; rfl
    have erased : w.db.keys.erase (env.crypto.getPubKey root) = ∅ := by
      rw [dbRootKey]
      exact AList.ext (by simp [AList.erase, AList.singleton])
    have encrypted (v : SpkMan Cache) : encryptKey env (fun _ => true) masterKey v
        ⟨env.crypto.getID (env.crypto.getPubKey root), root⟩
        = ({ v with
            mMapCryptedKeys := v.mMapCryptedKeys.insert
              (env.crypto.getID (env.crypto.getPubKey root)) (env.crypto.getPubKey root, secret)
            db := v.db.writeCryptedKey (env.crypto.getPubKey root) secret }, true) := by
      simp only [encryptKey, encrypts, if_true]
    rw [keysEncrypted]
    rw [entries, loop_cons_of_ok (by rw [encrypted]), loop_nil, encrypted]
    simp only [WalletDB.writeCryptedKey, erased, noCrypted, noDbCrypted]
    rfl
  | sealed isEncrypted => exact absurd (unencrypted.symm.trans isEncrypted) (by decide)

theorem Sealing.erases {keyed : SpkMan Cache} (inv : Owned env masterKey root child w)
    (wpkh : Wpkh env child masterKey root) (pubkeys : keyed.mMapPubkeys = w.mMapPubkeys)
    (start : Sealing env masterKey child w keyed keyed)
    (success : (loop (SpkMan.encryptPqcKey env (fun _ => true) masterKey) w.mMapPqcKeys.entries
      keyed).2 = true) :
    ∀ entry ∈ w.mMapPqcKeys.entries, ∀ pubkey, env.crypto.getID pubkey = entry.1 →
      (∃ i, env.desc.Has i ∧ pubkey = pubkeyAt env child i) →
      (loop (SpkMan.encryptPqcKey env (fun _ => true) masterKey) w.mMapPqcKeys.entries
        keyed).1.db.pqcKeys.lookup pubkey = none := by
  refine loop_establishes (Sealing env masterKey child w keyed)
    (fun entry (v : SpkMan Cache) => ∀ pubkey, env.crypto.getID pubkey = entry.1 →
      (∃ i, env.desc.Has i ∧ pubkey = pubkeyAt env child i) → v.db.pqcKeys.lookup pubkey = none)
    (fun _ _ listed sealing => sealing.encryptPqcKey inv wpkh pubkeys listed) ?_ ?_
    w.mMapPqcKeys.nodupKeys.nodup start success
  · intro v entry listed sealing encrypts pubkey same own
    obtain ⟨cryptedPqc, pqcRecords, cryptedRecords, rest⟩ := sealing.rest
    have samePubkeys : v.mMapPubkeys = w.mMapPubkeys := by
      rwa [rest]
    unfold SpkMan.encryptPqcKey at encrypts ⊢
    rw [sealPqcKey_congr samePubkeys] at encrypts ⊢
    split
    next refused => simp [refused] at encrypts
    next pubkey' secret sealed =>
      obtain ⟨i, has, rfl, id, -⟩ := inv.sealPqcKey wpkh listed sealed
      obtain rfl := Wpkh.eq_of_getID wpkh own ⟨i, has, rfl⟩ (same.trans id)
      rw [if_pos rfl]
      exact AList.lookup_erase _ _
  · intro v entry _ other _ _ erased pubkey same own
    have none := erased pubkey same own
    unfold SpkMan.encryptPqcKey
    split
    · exact none
    · rw [if_pos rfl]
      refine Option.eq_none_iff_forall_ne_some.mpr fun record found => ?_
      simp [(lookup_of_lookup_erase found).2] at none

/-- **A wallet that was encrypted has the invariant.** -/
theorem Owned.encrypt (inv : Owned env masterKey root child w)
    (wpkh : Wpkh env child masterKey root) (unencrypted : w.hasEncryptionKeys = false)
    (done : encrypt env (fun _ => true) masterKey
      { w with hasEncryptionKeys := true, db := { w.db with hasMasterKey := true } } = (w', true)) :
    Owned env masterKey root child w' := by
  let started : SpkMan Cache :=
    { w with hasEncryptionKeys := true, db := { w.db with hasMasterKey := true } }
  have noCrypted : started.mMapCryptedKeys = ∅ := by
    cases inv.root with
    | none _ _ noCrypted => exact noCrypted
    | clear _ _ _ noCrypted => exact noCrypted
    | sealed isEncrypted => exact absurd (unencrypted.symm.trans isEncrypted) (by decide)
  have noCryptedPqc := inv.noCrypted unencrypted
  obtain ⟨-, pqc, rfl⟩ := @encrypt_eq_true _ env masterKey (fun _ => true) started w' noCrypted
    noCryptedPqc done
  obtain ⟨dbKeys, crypted, dbCrypted, keyed, holds⟩ := @OwnedWith.keysEncrypted_eq _ env masterKey
    root child _ w inv wpkh unencrypted started rfl
  have pubkeys : (started.keysEncrypted env (fun _ => true) masterKey).mMapPubkeys = w.mMapPubkeys := by
    rw [keyed]
  have start : Sealing env masterKey child w (started.keysEncrypted env (fun _ => true) masterKey)
      (started.keysEncrypted env (fun _ => true) masterKey) := by
    rw [keyed]
    refine ⟨⟨_, _, _, rfl⟩, inv.cryptedPqc, inv.cryptedRecords, fun _ _ found => found⟩
  have sealing : Sealing env masterKey child w (started.keysEncrypted env (fun _ => true) masterKey)
      (started.pqcKeysEncrypted env (fun _ => true) masterKey).1 :=
    loop_invariant _ (fun _ _ listed sealing => sealing.encryptPqcKey inv wpkh pubkeys listed) start
  have erased := Sealing.erases inv wpkh pubkeys start pqc
  have stores := encryptPqcKeys_stores pqc
  obtain ⟨cryptedPqc, pqcRecords, cryptedRecords, rest⟩ := sealing.rest
  have kept : ∀ id pqcPub, w.pqcPubkeyOf id = some pqcPub →
      pqcPubkeyOf id { (started.pqcKeysEncrypted env (fun _ => true) masterKey).1 with
        mMapPqcKeys := ∅ } = some pqcPub := by
    intro id pqcPub stored
    unfold pqcPubkeyOf at stored
    rw [noCryptedPqc] at stored
    split at stored
    next hybrid found =>
      obtain ⟨pubkey, secret, -, stored'⟩ := stores _ (mem_entries_of_lookup found)
      simp only [pqcPubkeyOf, AList.lookup_empty, stored', Option.map_some]
      exact stored
    · cases stored
  have final : (started.pqcKeysEncrypted env (fun _ => true) masterKey).1 =
      { started with
        mMapKeys := ∅, mMapCryptedKeys := crypted, mMapCryptedPqcKeys := cryptedPqc
        db := { started.db with
          keys := dbKeys, cryptedKeys := dbCrypted
          pqcKeys := pqcRecords, cryptedPqcKeys := cryptedRecords } } := by
    rw [rest, keyed]
  exact {
    dbMaster := by rw [final]
    master := by rw [final]; exact inv.master
    root := by rw [final]; exact holds
    scripts := by
      have scripts := inv.scripts.mono fun script i own => And.intro own.1 (own.2.mono kept)
      rw [final] at scripts ⊢
      exact scripts
    pubkeys := by rw [final]; exact inv.pubkeys
    pqcKeys := .empty
    cryptedPqc := sealing.cryptedPqc
    disjoint := fun id listed => absurd listed (AList.notMem_empty id)
    noCrypted := by rw [final]; exact nofun
    records := by
      intro pubkey record found
      obtain ⟨own, stored⟩ := inv.records _ _ (sealing.records _ _ found)
      have none := erased _ (mem_entries_of_lookup stored) pubkey rfl own
      exact absurd (found.symm.trans none) (by simp)
    cryptedRecords := sealing.cryptedRecords }

theorem Owned.encryptWallet (inv : Owned env masterKey root child w)
    (wpkh : Wpkh env child masterKey root) (done : w.encryptWallet env masterKey = .ok w') :
    Owned env masterKey root child w' := by
  unfold SpkMan.encryptWallet at done
  split at done
  · cases done
    exact inv
  next unencrypted =>
    split at done
    · cases done
    next finished =>
      cases done
      exact (inv.encrypt wpkh (by simpa using unencrypted) finished).lock.unlock.lock

theorem Owned.closed (wpkh : Wpkh env child masterKey root) (correct : signer.Correct env.crypto) :
    Closed env masterKey (· = root) (Owned env masterKey root child) where
  addresses := addresses wpkh correct
  fresh := fresh
  addKey own inv := inv.addKey wpkh own
  update range inv := inv.update range
  lock := lock
  unlock := unlock
  encryptWallet inv done := inv.encryptWallet wpkh done
  load inv loaded := inv.load wpkh correct loaded

end SpkMan

end QuantBTC.Wallet
