/-
# Wallet.SpkMan -- `DescriptorScriptPubKeyMan`

One descriptor of a wallet: the maps of scripts and keys, the records in the wallet file,
and the functions that fill them.  A `SpkMan` is the manager together with what it reads of
the wallet around it: whether a master key exists and whether it is unlocked.

A `Descriptor` is what the manager uses of the descriptor language.  What an index expands
to does not depend on whether the keys come from the cache or from a private key, and what
was expanded once can be expanded from the cache from then on.

Writes to the wallet file succeed, except in `encrypt`, where every outcome is allowed for.
A failed `assert` ends the process, which leaves the wallet file as last committed.  Logging,
notifications, the wallet-wide set of scripts and the memo table of signing providers are left
out; indices are natural numbers.
-/
import QuantBTC.Script.Witness
import QuantBTC.Theory.Loops
import QuantBTC.Wallet.Keys

namespace QuantBTC.Wallet

set_option autoImplicit false

open Primitives Script Theory.Loops

/-! ## Descriptors -/

abbrev KeyMap := StdMap CKeyID CKey

structure Descriptor (Cache : Type) where
  id : Uint256
  isRange : Bool
  isSingleType : Bool
  /-- the scripts of an index -/
  scripts : Nat → List Bytes
  /-- the public keys of an index -/
  pubkeys : Nat → List CPubKey
  /-- `ExpandFromCache` succeeds -/
  expandFromCache : Cache → Nat → Bool
  /-- `Expand` with the keys of a provider: what it adds to the cache -/
  expand : KeyMap → Nat → Option Cache
  noCache : Cache
  /-- `MergeAndDiff` -/
  merge : Cache → Cache → Cache
  /-- `ExpandPrivate`: the private keys of an index -/
  expandPrivate : KeyMap → Nat → KeyMap
  /-- no key is made from nothing -/
  expandPrivate_empty : ∀ i, expandPrivate ∅ i = ∅
  expandFromCache_merge : ∀ cache items i, expandFromCache cache i = true →
    expandFromCache (merge cache items) i = true
  expandFromCache_expand : ∀ cache keys items i, expand keys i = some items →
    expandFromCache (merge cache items) i = true

def Descriptor.Has {Cache : Type} (desc : Descriptor Cache) (i : Nat) : Prop :=
  ∃ cache, desc.expandFromCache cache i = true

theorem Descriptor.has_of_expand {Cache : Type} {desc : Descriptor Cache} {keys : KeyMap} {i : Nat}
    {items : Cache} (expanded : desc.expand keys i = some items) : desc.Has i :=
  ⟨_, desc.expandFromCache_expand desc.noCache _ _ _ expanded⟩

/-! ## State -/

structure WalletDB (Cache : Type) where
  hasMasterKey : Bool := false
  /-- `range_start`, `range_end` and `next_index`, once the descriptor is written -/
  descriptor : Option (Nat × Nat × Nat) := none
  cache : Cache
  keys : StdMap CPubKey CKey := ∅
  cryptedKeys : StdMap CPubKey Bytes := ∅
  pqcKeys : StdMap CPubKey (Bytes × Bytes) := ∅
  cryptedPqcKeys : StdMap CPubKey (Bytes × Bytes) := ∅

def WalletDB.writeCryptedKey {Cache : Type} (pubkey : CPubKey) (secret : Bytes)
    (db : WalletDB Cache) : WalletDB Cache :=
  { db with
    cryptedKeys := db.cryptedKeys.insert pubkey secret
    keys := db.keys.erase pubkey }

def WalletDB.writeCryptedPqcKey {Cache : Type} (pubkey : CPubKey) (record : Bytes × Bytes)
    (db : WalletDB Cache) : WalletDB Cache :=
  { db with
    cryptedPqcKeys := db.cryptedPqcKeys.insert pubkey record
    pqcKeys := db.pqcKeys.erase pubkey }

structure SpkMan (Cache : Type) where
  mMapScriptPubKeys : StdMap Bytes Nat := ∅
  mMapPubkeys : StdMap CPubKey Nat := ∅
  /-- `m_max_cached_index + 1` -/
  mCachedCount : Nat := 0
  mMapKeys : KeyMap := ∅
  mMapCryptedKeys : StdMap CKeyID (CPubKey × Bytes) := ∅
  mMapPqcKeys : StdMap CKeyID HybridKey := ∅
  mMapCryptedPqcKeys : StdMap CKeyID (Bytes × Bytes) := ∅
  mDecryptionThoroughlyChecked : Bool := false
  rangeStart : Nat := 0
  rangeEnd : Nat := 0
  nextIndex : Nat := 0
  cache : Cache
  /-- `HasEncryptionKeys` -/
  hasEncryptionKeys : Bool := false
  /-- empty while the wallet is locked -/
  vMasterKey : Bytes := []
  db : WalletDB Cache

structure WalletEnv (Cache : Type) where
  crypto : KeyCrypto
  desc : Descriptor Cache
  mKeypoolSize : Nat

variable {Cache : Type} (env : WalletEnv Cache)

namespace SpkMan

def isLocked (w : SpkMan Cache) : Bool := w.hasEncryptionKeys && w.vMasterKey == []

def havePrivateKeys (w : SpkMan Cache) : Bool :=
  w.mMapKeys.entries != [] || w.mMapCryptedKeys.entries != []

def isMine (script : Bytes) (w : SpkMan Cache) : Bool := (w.mMapScriptPubKeys.lookup script).isSome

def getKeys (w : SpkMan Cache) : KeyMap :=
  if w.hasEncryptionKeys && !w.isLocked then
    w.mMapCryptedKeys.entries.foldl (fun keys entry =>
      keys.insert (env.crypto.getID entry.2.1)
        (env.crypto.decryptKey w.vMasterKey entry.2.2 entry.2.1).1) ∅
  else w.mMapKeys

def getKey (keyid : CKeyID) (w : SpkMan Cache) : Option CKey :=
  if w.hasEncryptionKeys && !w.isLocked then
    match w.mMapCryptedKeys.lookup keyid with
    | none => none
    | some (pubkey, cryptedSecret) =>
      match env.crypto.decryptKey w.vMasterKey cryptedSecret pubkey with
      | (key, true) => some key
      | (_, false) => none
  else w.mMapKeys.lookup keyid

def findPubkey (keyid : CKeyID) (w : SpkMan Cache) : Option CPubKey :=
  (w.mMapPubkeys.entries.find? fun entry => env.crypto.getID entry.1 == keyid).map (·.1)

/-! ## Writing keys -/

def hybridHash (pubkey : CPubKey) (pqcPub : Bytes) : Bytes :=
  env.crypto.hashes.hash160 (pubkey.bytes ++ pqcPub)

def registerHybrid (pubkey : CPubKey) (pqcPub : Bytes) (i : Nat) (w : SpkMan Cache) :
    SpkMan Cache :=
  { w with
    mMapScriptPubKeys := w.mMapScriptPubKeys.insert (payToKeyHash (hybridHash env pubkey pqcPub)) i }

def storePqcKey (pubkey : CPubKey) (hybrid : HybridKey) (record : Bytes × Bytes)
    (w : SpkMan Cache) : SpkMan Cache :=
  { w with
    mMapPqcKeys := w.mMapPqcKeys.insert (env.crypto.getID pubkey) hybrid
    db := { w.db with pqcKeys := w.db.pqcKeys.insert pubkey record } }

def storeCryptedPqcKey (pubkey : CPubKey) (pair : Bytes × Bytes) (w : SpkMan Cache) :
    SpkMan Cache :=
  { w with
    mMapCryptedPqcKeys := w.mMapCryptedPqcKeys.insert (env.crypto.getID pubkey) pair
    db := w.db.writeCryptedPqcKey pubkey pair }

def addDescriptorKey (w : SpkMan Cache) (key : CKey) : SpkMan Cache × Bool :=
  let pubkey := env.crypto.getPubKey key
  let keyid := env.crypto.getID pubkey
  if keyid ∈ w.mMapKeys ∨ keyid ∈ w.mMapCryptedKeys then (w, true)
  else if w.hasEncryptionKeys then
    if w.isLocked then (w, false)
    else
      match env.crypto.encryptSecret w.vMasterKey key.keydata (env.crypto.getHash pubkey) with
      | none => (w, false)
      | some cryptedSecret =>
        ({ w with
           mMapCryptedKeys := w.mMapCryptedKeys.insert keyid (pubkey, cryptedSecret)
           db := w.db.writeCryptedKey pubkey cryptedSecret }, true)
  else
    ({ w with
       mMapKeys := w.mMapKeys.insert keyid key
       db := { w.db with keys := w.db.keys.insert pubkey key } }, true)

def writeDescriptor (w : SpkMan Cache) : SpkMan Cache :=
  { w with db := { w.db with descriptor := some (w.rangeStart, w.rangeEnd, w.nextIndex) } }

/-! ## Top-up -/

variable (config : PQCConfig)

def ecdsaKeyFor (privKeys : KeyMap) (keyid : CKeyID) (w : SpkMan Cache) : Option CKey :=
  match privKeys.lookup keyid with
  | some key => some key
  | none => w.getKey env keyid

def addPubkey (pubkey : CPubKey) (i : Nat) (w : SpkMan Cache) : SpkMan Cache :=
  { w with mMapPubkeys := w.mMapPubkeys.insert pubkey i }

def topUpPqcKey (i : Nat) (ecdsaKey : CKey) (pubkey : CPubKey) (w : SpkMan Cache) :
    SpkMan Cache × Bool :=
  if config.useFalcon then
    match env.crypto.deriveFalcon ecdsaKey env.desc.id i pubkey with
    | none => (w, true)
    | some (pqcPub, _) =>
      let w := w.storePqcKey env pubkey (HybridKey.setPQCPublicKey {} pqcPub).1 (pqcPub, [])
      (w.registerHybrid env pubkey pqcPub i, true)
  else
    match env.crypto.deriveDilithium ecdsaKey env.desc.id i pubkey with
    | none => (w, true)
    | some (pqcPub, pqcPriv) =>
      if w.hasEncryptionKeys then
        match env.crypto.encryptSecret w.vMasterKey pqcPriv (env.crypto.getHash pubkey) with
        | none => (w, false)
        | some cryptedPqcPriv =>
          let w := w.storeCryptedPqcKey env pubkey (pqcPub, cryptedPqcPriv)
          (w.registerHybrid env pubkey pqcPub i, true)
      else
        let w := w.storePqcKey env pubkey (HybridKey.setPQCKey {} pqcPub pqcPriv).1
          (pqcPub, pqcPriv)
        (w.registerHybrid env pubkey pqcPub i, true)

def topUpPubkey (i : Nat) (privKeys : KeyMap) (w : SpkMan Cache) (pubkey : CPubKey) :
    SpkMan Cache × Bool :=
  if pubkey ∈ w.mMapPubkeys then (w, true)
  else
    let w := w.addPubkey pubkey i
    let keyid := env.crypto.getID pubkey
    if config.enableHybridSignatures = false ∨ keyid ∈ w.mMapPqcKeys ∨
        keyid ∈ w.mMapCryptedPqcKeys then (w, true)
    else
      match w.ecdsaKeyFor env privKeys keyid with
      -- the key is skipped, the top-up goes on
      | none => (w, true)
      | some ecdsaKey => w.topUpPqcKey env config i ecdsaKey pubkey

def addScripts (i : Nat) (w : SpkMan Cache) : SpkMan Cache :=
  { w with
    mMapScriptPubKeys :=
      (env.desc.scripts i).foldl (fun spks script => spks.insert script i) w.mMapScriptPubKeys }

def mergeCache (items : Cache) (w : SpkMan Cache) : SpkMan Cache :=
  { w with
    cache := env.desc.merge w.cache items
    db := { w.db with cache := env.desc.merge w.db.cache items } }

def expandIndex (provider : KeyMap) (i : Nat) (w : SpkMan Cache) : Option (Option Cache) :=
  if env.desc.expandFromCache w.cache i then some none
  else (env.desc.expand provider i).map some

def privKeysAt (provider : KeyMap) (i : Nat) (w : SpkMan Cache) : KeyMap :=
  if config.enableHybridSignatures && w.havePrivateKeys then env.desc.expandPrivate provider i
  else ∅

def topUpIndex (provider : KeyMap) (w : SpkMan Cache) (i : Nat) : SpkMan Cache × Bool :=
  match w.expandIndex env provider i with
  | none => (w, false)
  | some items =>
    let w := w.addScripts env i
    match loop (topUpPubkey env config i (w.privKeysAt env config provider i))
        (env.desc.pubkeys i) w with
    | (w, false) => (w, false)
    | (w, true) =>
      let w := items.elim w (w.mergeCache env)
      ({ w with mCachedCount := w.mCachedCount + 1 }, true)

def targetSize (size : Nat) : Nat :=
  if 0 < size then size
  else if config.enableHybridSignatures && config.useFalcon then 1
  else env.mKeypoolSize

def fixRange (w : SpkMan Cache) : SpkMan Cache :=
  if env.desc.isRange then w else { w with rangeStart := 0, rangeEnd := 1 }

def newRangeEnd (size : Nat) (w : SpkMan Cache) : Nat :=
  if env.desc.isRange then max (w.nextIndex + targetSize env config size) w.rangeEnd else 1

abbrev Outcome (Cache : Type) := Except (WalletDB Cache)

def finishTopUp (rangeEnd : Nat) (w : SpkMan Cache) : SpkMan Cache :=
  { w with rangeEnd }.writeDescriptor

def topUp (size : Nat) (w : SpkMan Cache) : Outcome Cache (SpkMan Cache × Bool) :=
  let newRangeEnd := w.newRangeEnd env config size
  match loop (topUpIndex env config (w.getKeys env))
      (List.range' w.mCachedCount (newRangeEnd - w.mCachedCount)) (w.fixRange env) with
  | (w, false) => .ok (w, false)
  | (last, true) =>
    if newRangeEnd = last.mCachedCount then .ok (last.finishTopUp newRangeEnd, true)
    else .error w.db

/-! ## What a top-up does -/

structure SameKeys (w w' : SpkMan Cache) : Prop where
  keys : w'.mMapKeys = w.mMapKeys
  crypted : w'.mMapCryptedKeys = w.mMapCryptedKeys
  encrypted : w'.hasEncryptionKeys = w.hasEncryptionKeys
  master : w'.vMasterKey = w.vMasterKey
  dbKeys : w'.db.keys = w.db.keys
  dbCrypted : w'.db.cryptedKeys = w.db.cryptedKeys
  dbMaster : w'.db.hasMasterKey = w.db.hasMasterKey

inductive StoresPqcKey (i : Nat) (ecdsaKey : CKey) (pubkey : CPubKey) (w : SpkMan Cache) :
    SpkMan Cache → Prop where
  | falcon {pqcPub pqcPriv : Bytes} (scheme : config.useFalcon = true)
      (derived : env.crypto.deriveFalcon ecdsaKey env.desc.id i pubkey = some (pqcPub, pqcPriv)) :
      StoresPqcKey i ecdsaKey pubkey w
        ((w.storePqcKey env pubkey (HybridKey.setPQCPublicKey {} pqcPub).1 (pqcPub, [])
          ).registerHybrid env pubkey pqcPub i)
  | crypted {pqcPub pqcPriv cryptedPqcPriv : Bytes} (scheme : config.useFalcon = false)
      (encrypted : w.hasEncryptionKeys = true)
      (derived : env.crypto.deriveDilithium ecdsaKey env.desc.id i pubkey = some (pqcPub, pqcPriv))
      (encrypts : env.crypto.encryptSecret w.vMasterKey pqcPriv (env.crypto.getHash pubkey)
        = some cryptedPqcPriv) :
      StoresPqcKey i ecdsaKey pubkey w
        ((w.storeCryptedPqcKey env pubkey (pqcPub, cryptedPqcPriv)).registerHybrid env pubkey
          pqcPub i)
  | plain {pqcPub pqcPriv : Bytes} (scheme : config.useFalcon = false)
      (unencrypted : w.hasEncryptionKeys = false)
      (derived : env.crypto.deriveDilithium ecdsaKey env.desc.id i pubkey
        = some (pqcPub, pqcPriv)) :
      StoresPqcKey i ecdsaKey pubkey w
        ((w.storePqcKey env pubkey (HybridKey.setPQCKey {} pqcPub pqcPriv).1 (pqcPub, pqcPriv)
          ).registerHybrid env pubkey pqcPub i)

inductive Atom (provider : KeyMap) (bound : Nat) : SpkMan Cache → SpkMan Cache → Prop where
  | script {w : SpkMan Cache} {i : Nat} {script : Bytes} (below : i < bound)
      (has : env.desc.Has i) (expanded : script ∈ env.desc.scripts i) :
      Atom provider bound w { w with mMapScriptPubKeys := w.mMapScriptPubKeys.insert script i }
  | pubkey {w : SpkMan Cache} {i : Nat} {pubkey : CPubKey} (below : i < bound)
      (has : env.desc.Has i) (expanded : pubkey ∈ env.desc.pubkeys i) :
      Atom provider bound w (w.addPubkey pubkey i)
  | pqcKey {w w' : SpkMan Cache} {i : Nat} {ecdsaKey : CKey} {pubkey : CPubKey} (below : i < bound)
      (has : env.desc.Has i) (expanded : pubkey ∈ env.desc.pubkeys i) (known : pubkey ∈ w.mMapPubkeys)
      (enabled : config.enableHybridSignatures = true)
      (fresh : env.crypto.getID pubkey ∉ w.mMapPqcKeys)
      (freshCrypted : env.crypto.getID pubkey ∉ w.mMapCryptedPqcKeys)
      (ecdsa : w.ecdsaKeyFor env (w.privKeysAt env config provider i) (env.crypto.getID pubkey)
        = some ecdsaKey)
      (stores : StoresPqcKey env config i ecdsaKey pubkey w w') :
      Atom provider bound w w'
  | cache {w : SpkMan Cache} {i : Nat} {items : Cache} (below : i < bound)
      (expanded : env.desc.expand provider i = some items) :
      Atom provider bound w (w.mergeCache env items)
  | count {w : SpkMan Cache} :
      Atom provider bound w { w with mCachedCount := w.mCachedCount + 1 }

abbrev Atoms (provider : KeyMap) (bound : Nat) : SpkMan Cache → SpkMan Cache → Prop :=
  Relation.ReflTransGen (Atom env config provider bound)

variable {env config} {provider : KeyMap} {bound : Nat} {w w' : SpkMan Cache}

theorem SameKeys.refl (w : SpkMan Cache) : SameKeys w w := ⟨rfl, rfl, rfl, rfl, rfl, rfl, rfl⟩

theorem SameKeys.trans {w'' : SpkMan Cache} (first : SameKeys w w') (second : SameKeys w' w'') :
    SameKeys w w'' :=
  ⟨second.keys.trans first.keys, second.crypted.trans first.crypted,
    second.encrypted.trans first.encrypted, second.master.trans first.master,
    second.dbKeys.trans first.dbKeys, second.dbCrypted.trans first.dbCrypted,
    second.dbMaster.trans first.dbMaster⟩

variable {i : Nat}

theorem StoresPqcKey.sameKeys {ecdsaKey : CKey} {pubkey : CPubKey}
    (stores : StoresPqcKey env config i ecdsaKey pubkey w w') : SameKeys w w' := by
  cases stores <;> exact ⟨rfl, rfl, rfl, rfl, rfl, rfl, rfl⟩

theorem Atom.sameKeys (atom : Atom env config provider bound w w') : SameKeys w w' := by
  cases atom with
  | script | pubkey | cache | count => exact ⟨rfl, rfl, rfl, rfl, rfl, rfl, rfl⟩
  | pqcKey _ _ _ _ _ _ _ _ stores => exact stores.sameKeys

theorem Atoms.sameKeys (atoms : Atoms env config provider bound w w') : SameKeys w w' := by
  induction atoms with
  | refl => exact SameKeys.refl _
  | tail _ atom ih => exact ih.trans atom.sameKeys

structure SameRange (w w' : SpkMan Cache) : Prop where
  rangeStart : w'.rangeStart = w.rangeStart
  rangeEnd : w'.rangeEnd = w.rangeEnd
  written : w'.db.descriptor = w.db.descriptor

theorem Atom.sameRange (atom : Atom env config provider bound w w') : SameRange w w' := by
  cases atom with
  | script | pubkey | cache | count => exact ⟨rfl, rfl, rfl⟩
  | pqcKey _ _ _ _ _ _ _ _ stores => cases stores <;> exact ⟨rfl, rfl, rfl⟩

theorem Atoms.sameRange (atoms : Atoms env config provider bound w w') : SameRange w w' := by
  induction atoms with
  | refl => exact ⟨rfl, rfl, rfl⟩
  | tail _ atom ih =>
    have next := atom.sameRange
    exact ⟨next.rangeStart.trans ih.rangeStart, next.rangeEnd.trans ih.rangeEnd,
      next.written.trans ih.written⟩

theorem SameKeys.isLocked (same : SameKeys w w') : w'.isLocked = w.isLocked := by
  simp [SpkMan.isLocked, same.encrypted, same.master]

theorem SameKeys.privKeysAt (same : SameKeys w w') (provider : KeyMap) (i : Nat) :
    w'.privKeysAt env config provider i = w.privKeysAt env config provider i := by
  simp [SpkMan.privKeysAt, havePrivateKeys, same.keys, same.crypted]

theorem SameKeys.getKeys (same : SameKeys w w') : w'.getKeys env = w.getKeys env := by
  simp [SpkMan.getKeys, same.isLocked, same.keys, same.crypted, same.encrypted, same.master]

theorem topUpPqcKey_stores (i : Nat) (ecdsaKey : CKey) (pubkey : CPubKey) :
    (w.topUpPqcKey env config i ecdsaKey pubkey).1 = w ∨
      StoresPqcKey env config i ecdsaKey pubkey w (w.topUpPqcKey env config i ecdsaKey pubkey).1 := by
  cases scheme : config.useFalcon with
  | true =>
    cases derived : env.crypto.deriveFalcon ecdsaKey env.desc.id i pubkey with
    | none => simp [topUpPqcKey, scheme, derived]
    | some pair =>
      right
      simpa [topUpPqcKey, scheme, derived] using StoresPqcKey.falcon scheme derived
  | false =>
    cases derived : env.crypto.deriveDilithium ecdsaKey env.desc.id i pubkey with
    | none => simp [topUpPqcKey, scheme, derived]
    | some pair =>
      cases encrypted : w.hasEncryptionKeys with
      | false =>
        right
        simpa [topUpPqcKey, scheme, derived, encrypted]
          using StoresPqcKey.plain scheme encrypted derived
      | true =>
        cases encrypts : env.crypto.encryptSecret w.vMasterKey pair.2
            (env.crypto.getHash pubkey) with
        | none => simp [topUpPqcKey, scheme, derived, encrypted, encrypts]
        | some cryptedPqcPriv =>
          right
          simpa [topUpPqcKey, scheme, derived, encrypted, encrypts]
            using StoresPqcKey.crypted scheme encrypted derived encrypts

theorem topUpPubkey_sameKeys (i : Nat) (privKeys : KeyMap) (pubkey : CPubKey) :
    SameKeys w (topUpPubkey env config i privKeys w pubkey).1 := by
  have added : SameKeys w (w.addPubkey pubkey i) := ⟨rfl, rfl, rfl, rfl, rfl, rfl, rfl⟩
  unfold topUpPubkey
  split
  · exact SameKeys.refl w
  · dsimp only
    split
    · exact added
    · split
      · exact added
      next ecdsaKey _ =>
        rcases topUpPqcKey_stores i ecdsaKey pubkey with same | stores
        · rwa [same]
        · exact added.trans stores.sameKeys

theorem topUpPubkey_atoms (below : i < bound) (has : env.desc.Has i) {pubkey : CPubKey}
    (expanded : pubkey ∈ env.desc.pubkeys i) :
    Atoms env config provider bound w
      (topUpPubkey env config i (w.privKeysAt env config provider i) w pubkey).1 := by
  unfold topUpPubkey
  split
  · exact .refl
  · have added : Atom env config provider bound w (w.addPubkey pubkey i) :=
      .pubkey below has expanded
    dsimp only
    split
    · exact .single added
    next derives =>
      simp only [not_or, Bool.not_eq_false] at derives
      obtain ⟨enabled, fresh, freshCrypted⟩ := derives
      split
      · exact .single added
      next ecdsaKey ecdsa =>
        rcases topUpPqcKey_stores i ecdsaKey pubkey with same | stores
        · rw [same]
          exact .single added
        · refine .tail (.single added) (.pqcKey below has expanded ?_ enabled fresh freshCrypted
            ?_ stores)
          · simp [addPubkey]
          · rwa [added.sameKeys.privKeysAt]

theorem addScripts_atoms (below : i < bound) (has : env.desc.Has i) :
    Atoms env config provider bound w (w.addScripts env i) := by
  suffices general : ∀ scripts : List Bytes, scripts ⊆ env.desc.scripts i →
      ∀ w : SpkMan Cache, Atoms env config provider bound w
        { w with
          mMapScriptPubKeys :=
            scripts.foldl (fun spks script => spks.insert script i) w.mMapScriptPubKeys } from
    general _ (List.Subset.refl _) w
  intro scripts
  induction scripts with
  | nil => exact fun _ _ => .refl
  | cons script rest ih =>
    intro expanded w
    rw [List.cons_subset] at expanded
    exact .head (.script below has expanded.1) (ih expanded.2 _)

theorem topUpPubkeys_atoms (below : i < bound) (has : env.desc.Has i) :
    Atoms env config provider bound w
      (loop (topUpPubkey env config i (w.privKeysAt env config provider i))
        (env.desc.pubkeys i) w).1 := by
  refine loop_invariant (Atoms env config provider bound w) ?_ .refl
  intro w' pubkey expanded atoms
  rw [← atoms.sameKeys.privKeysAt]
  exact atoms.trans (topUpPubkey_atoms below has expanded)

theorem has_of_expandIndex {items : Option Cache}
    (expanded : w.expandIndex env provider i = some items) : env.desc.Has i := by
  unfold expandIndex at expanded
  split at expanded
  next cached => exact ⟨_, cached⟩
  · obtain ⟨items, expanded, -⟩ := Option.map_eq_some_iff.mp expanded
    exact Descriptor.has_of_expand expanded

theorem topUpIndex_atoms (below : i < bound) :
    Atoms env config provider bound w (topUpIndex env config provider w i).1 := by
  unfold topUpIndex
  split
  · exact .refl
  next items expanded =>
    have has := has_of_expandIndex expanded
    have scripts : Atoms env config provider bound w (w.addScripts env i) :=
      addScripts_atoms below has
    have pubkeys := scripts.trans (topUpPubkeys_atoms below has)
    dsimp only
    split
    next failed => rwa [failed] at pubkeys
    next done =>
      rw [done] at pubkeys
      refine .tail (pubkeys.trans ?_) .count
      cases items with
      | none => exact .refl
      | some items =>
        refine .single (.cache below ?_)
        unfold expandIndex at expanded
        split at expanded
        · cases expanded
        · simpa using expanded

theorem topUp_atoms {size : Nat} {ok : Bool} (topped : w.topUp env config size = .ok (w', ok)) :
    ∃ last, Atoms env config (w.getKeys env) (w.newRangeEnd env config size) (w.fixRange env) last ∧
      (ok = false ∧ w' = last ∨
        ok = true ∧ last.mCachedCount = w.newRangeEnd env config size ∧
          w' = last.finishTopUp (w.newRangeEnd env config size)) := by
  have atoms : Atoms env config (w.getKeys env) (w.newRangeEnd env config size) (w.fixRange env)
      (loop (topUpIndex env config (w.getKeys env))
        (List.range' w.mCachedCount (w.newRangeEnd env config size - w.mCachedCount))
        (w.fixRange env)).1 := by
    refine loop_invariant _ ?_ .refl
    intro w' i listed atoms
    rw [List.mem_range'_1] at listed
    exact atoms.trans (topUpIndex_atoms (by omega))
  unfold topUp at topped
  grind

end SpkMan

end QuantBTC.Wallet
