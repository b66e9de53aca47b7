/-
# Wallet.Unlocking -- the passphrase of an encrypted wallet

`CheckDecryptionKey` decrypts what is encrypted and moves post-quantum keys that are stored in
the clear to the encrypted ones.  A Falcon key has no private half to move, so one such key and
the right master key is refused from then on.  A wallet stores Falcon keys whenever it tops up
unlocked under a configuration that prefers Falcon, which is the default.
-/
import QuantBTC.Theory.Maps
import QuantBTC.Theory.Runs
import QuantBTC.Wallet.Runs

namespace QuantBTC.Wallet

set_option autoImplicit false

open Primitives Script Theory.Loops Theory.Maps Theory.Runs

variable {Cache : Type} (env : WalletEnv Cache)

/-! ## Assumptions -/

structure Generates (masterKey : Bytes) (root : CKey) : Prop where
  inverts : env.crypto.Inverts masterKey
  masterKey_ne : masterKey ≠ []
  valid : env.crypto.Valid root
  /-- Dilithium key pairs have a private key -/
  pqcPriv_ne : ∀ {seed pqcPub pqcPriv},
    env.crypto.dilithiumDeriveKeyPair seed = some (pqcPub, pqcPriv) → pqcPriv ≠ []
  ranged : env.desc.isRange = true
  /-- every index can be derived from the root key -/
  expands : ∀ i, ∃ items,
    env.desc.expand (AList.singleton (env.crypto.getID (env.crypto.getPubKey root)) root) i
      = some items
  /-- no two public keys of the descriptor have one id -/
  distinct : ∀ {i j pubkey other}, pubkey ∈ env.desc.pubkeys i → other ∈ env.desc.pubkeys j →
    env.crypto.getID pubkey = env.crypto.getID other → pubkey = other

def PQCConfig.storesFalcon (config : PQCConfig) : Bool :=
  config.enableHybridSignatures && config.useFalcon

def Op.config : Op → Option PQCConfig
  | .topUp config _ | .getNewDestination config | .markUnusedAddresses config _
  | .importAgain config _ _ => some config
  | _ => none

def Op.isUse : Op → Bool
  | .importAgain _ _ _ => false
  | _ => true

namespace SpkMan

def AvoidsFalcon (w : SpkMan Cache) (op : Op) : Prop :=
  w.isLocked = true ∨ ∀ config ∈ op.config, config.storesFalcon = false

instance (w : SpkMan Cache) (op : Op) : Decidable (w.AvoidsFalcon op) := by
  unfold AvoidsFalcon
  infer_instance

/-! ## The invariant -/

variable (masterKey : Bytes) (root : CKey)

def Decrypts (pubkey : CPubKey) (pair : Bytes × Bytes) : Prop :=
  (env.crypto.decryptSecret masterKey pair.2 (env.crypto.getHash pubkey)).isSome = true

structure Sealed (bound : Nat) (w : SpkMan Cache) : Prop where
  encrypted : w.hasEncryptionKeys = true
  dbEncrypted : w.db.hasMasterKey = true
  master : w.vMasterKey = [] ∨ w.vMasterKey = masterKey
  noKeys : w.mMapKeys = ∅
  noDbKeys : w.db.keys = ∅
  noPqcKeys : w.mMapPqcKeys = ∅
  noDbPqcKeys : w.db.pqcKeys = ∅
  crypted : ∃ secret,
    env.crypto.decryptKey masterKey secret (env.crypto.getPubKey root) = (root, true) ∧
    w.mMapCryptedKeys = AList.singleton (env.crypto.getID (env.crypto.getPubKey root))
      (env.crypto.getPubKey root, secret) ∧
    w.db.cryptedKeys = AList.singleton (env.crypto.getPubKey root) secret
  listed : ∀ pubkey ∈ w.mMapPubkeys, ∃ i, pubkey ∈ env.desc.pubkeys i
  cryptedPqc : AllEntries (fun id pair => ∃ pubkey ∈ w.mMapPubkeys,
    id = env.crypto.getID pubkey ∧ Decrypts env masterKey pubkey pair) w.mMapCryptedPqcKeys
  dbCryptedPqc : AllEntries (fun pubkey pair => (∃ i < bound, pubkey ∈ env.desc.pubkeys i) ∧
    Decrypts env masterKey pubkey pair) w.db.cryptedPqcKeys

structure Unlockable (w : SpkMan Cache) : Prop extends Sealed env masterKey root w.rangeEnd w where
  rangeStart : w.rangeStart = 0
  written : ∃ nextIndex, w.db.descriptor = some (0, w.rangeEnd, nextIndex)

variable {env masterKey root} {w w' : SpkMan Cache} {bound : Nat}

/-! ## Unlocking -/

theorem checkEntries_of_all {α : Type} {decrypts : α → Bool} (thorough : Bool) {entries : List α}
    (all : ∀ entry ∈ entries, decrypts entry = true) (pass : Bool) :
    checkEntries decrypts thorough entries pass = (pass || !entries.isEmpty, false) := by
  induction entries generalizing pass with
  | nil => simp [checkEntries]
  | cons entry rest ih => grind [List.mem_cons_self, checkEntries, List.mem_cons_of_mem]

theorem checkEntries_passes {κ ν : Type} [DecidableEq κ] [DecidableEq ν]
    {decrypts : (_ : κ) × ν → Bool} (thorough : Bool) {entries : List ((_ : κ) × ν)}
    (all : ∀ entry ∈ entries, decrypts entry = true) :
    checkEntries decrypts thorough entries (entries == []) = (true, false) := by
  rw [checkEntries_of_all thorough all]
  cases entries <;> rfl

theorem Sealed.findPubkey_eq (inv : Sealed env masterKey root bound w)
    (generates : Generates env masterKey root) {pubkey : CPubKey} (known : pubkey ∈ w.mMapPubkeys) :
    w.findPubkey env (env.crypto.getID pubkey) = some pubkey := by
  obtain ⟨i, listed⟩ := inv.listed pubkey known
  cases found : w.mMapPubkeys.entries.find? fun entry =>
    env.crypto.getID entry.1 == env.crypto.getID pubkey with
  | none =>
    obtain ⟨index, entered⟩ := Option.isSome_iff_exists.mp (AList.lookup_isSome.mpr known)
    have unlike := List.find?_eq_none.mp found _ (mem_entries_of_lookup entered)
    simp at unlike
  | some entry =>
    have same : env.crypto.getID entry.1 = env.crypto.getID pubkey := by
      simpa using List.find?_some found
    have entered : entry.1 ∈ w.mMapPubkeys := by
      rw [← AList.lookup_isSome, lookup_of_mem_entries (List.mem_of_find?_eq_some found)]
      rfl
    obtain ⟨j, listed'⟩ := inv.listed entry.1 entered
    rw [findPubkey, found, Option.map_some, generates.distinct listed' listed same]

/-- **`CheckDecryptionKey` accepts the master key.** -/
theorem Sealed.checkDecryptionKey_eq (inv : Sealed env masterKey root bound w)
    (generates : Generates env masterKey root) :
    w.checkDecryptionKey env masterKey
      = ({ w with mDecryptionThoroughlyChecked := true }, some true) := by
  obtain ⟨secret, decrypts, crypted, -⟩ := inv.crypted
  have keys : ∀ entry ∈ w.mMapCryptedKeys.entries, decryptsKey env masterKey entry = true := by
    intro entry listed
    rw [crypted, AList.singleton_entries, List.mem_singleton] at listed
    rw [listed, decryptsKey, decrypts]
  have pqcKeys : ∀ entry ∈ w.mMapCryptedPqcKeys.entries,
      w.decryptsPqcKey env masterKey entry = true := by
    intro entry listed
    obtain ⟨pubkey, known, id, decrypts⟩ := inv.cryptedPqc _ _ (lookup_of_mem_entries listed)
    rwa [decryptsPqcKey, id, inv.findPubkey_eq generates known]
  have migrated : w.migrate env masterKey = (w, true) := by
    simp [migrate, inv.noPqcKeys]
  simp only [checkDecryptionKey, inv.noKeys, checkEntries_passes _ keys,
    checkEntries_passes _ pqcKeys, migrated]
  simp

theorem Unlockable.unlock (inv : Unlockable env masterKey root w)
    (generates : Generates env masterKey root) :
    Unlockable env masterKey root (w.unlock env masterKey) := by
  rw [SpkMan.unlock, if_pos inv.encrypted, inv.checkDecryptionKey_eq generates]
  exact { inv with master := .inr rfl }

theorem Unlockable.lock (inv : Unlockable env masterKey root w) :
    Unlockable env masterKey root w.lock :=
  { inv with master := .inl rfl }

/-! ## Top-ups -/

variable {config : PQCConfig} {provider : KeyMap} {limit : Nat}

theorem Sealed.mono (inv : Sealed env masterKey root bound w) {bound' : Nat} (le : bound ≤ bound') :
    Sealed env masterKey root bound' w := by
  refine { inv with dbCryptedPqc := inv.dbCryptedPqc.mono ?_ }
  grind

theorem Sealed.master_of_unlocked (inv : Sealed env masterKey root bound w)
    (unlocked : w.isLocked = false) : w.vMasterKey = masterKey := by
  refine inv.master.resolve_left fun empty => ?_
  simp [isLocked, inv.encrypted, empty] at unlocked

theorem Sealed.getKeys_locked (inv : Sealed env masterKey root bound w)
    (locked : w.isLocked = true) : w.getKeys env = ∅ := by
  rw [getKeys, locked, Bool.not_true, Bool.and_false, if_neg Bool.false_ne_true, inv.noKeys]

theorem Sealed.getKeys_unlocked (inv : Sealed env masterKey root bound w)
    (unlocked : w.isLocked = false) :
    w.getKeys env = AList.singleton (env.crypto.getID (env.crypto.getPubKey root)) root := by
  obtain ⟨secret, decrypts, crypted, -⟩ := inv.crypted
  simp [getKeys, inv.encrypted, unlocked, crypted, inv.master_of_unlocked unlocked, decrypts]

theorem Sealed.ecdsaKeyFor_locked (inv : Sealed env masterKey root bound w)
    (locked : w.isLocked = true) (i : Nat) (keyid : CKeyID) :
    w.ecdsaKeyFor env (w.privKeysAt env config ∅ i) keyid = none := by
  simp [privKeysAt, env.desc.expandPrivate_empty, ecdsaKeyFor, none, getKey, locked, inv.noKeys]

theorem Sealed.atom (inv : Sealed env masterKey root bound w)
    (change : Atom env config provider limit w w')
    (pqcKey : ∀ {i ecdsaKey pubkey}, i < limit → pubkey ∈ env.desc.pubkeys i →
      pubkey ∈ w.mMapPubkeys → config.enableHybridSignatures = true →
      w.ecdsaKeyFor env (w.privKeysAt env config provider i) (env.crypto.getID pubkey)
        = some ecdsaKey →
      StoresPqcKey env config i ecdsaKey pubkey w w' → Sealed env masterKey root bound w') :
    Sealed env masterKey root bound w' := by
  cases change with
  | script | cache | count => exact { inv with }
  | @pubkey i pubkey _ _ expanded =>
    refine { inv with listed := ?_, cryptedPqc := inv.cryptedPqc.mono ?_ }
    · intro other known
      rcases (AList.mem_insert _).mp known with rfl | known
      · exact ⟨i, expanded⟩
      · exact inv.listed other known
    · rintro id pair ⟨other, known, decrypts⟩
      exact ⟨other, (AList.mem_insert _).mpr (.inr known), decrypts⟩
  | pqcKey below _ expanded known enabled _ _ ecdsa stores =>
    exact pqcKey below expanded known enabled ecdsa stores

theorem Sealed.atom_locked (inv : Sealed env masterKey root bound w) (locked : w.isLocked = true)
    (change : Atom env config ∅ limit w w') : Sealed env masterKey root bound w' := by
  refine inv.atom change ?_
  intro i ecdsaKey pubkey _ _ _ _ ecdsa
  simp [inv.ecdsaKeyFor_locked locked] at ecdsa

theorem deriveDilithium_priv_ne (generates : Generates env masterKey root) {ecdsaKey : CKey}
    {descriptorId : Uint256} {i : Nat} {pubkey : CPubKey} {pqcPub pqcPriv : Bytes}
    (derived : env.crypto.deriveDilithium ecdsaKey descriptorId i pubkey = some (pqcPub, pqcPriv)) :
    pqcPriv ≠ [] := by
  unfold KeyCrypto.deriveDilithium at derived
  split at derived
  · exact generates.pqcPriv_ne derived
  · cases derived

theorem Sealed.atom_unlocked (inv : Sealed env masterKey root bound w)
    (generates : Generates env masterKey root) (unlocked : w.isLocked = false)
    (plain : config.storesFalcon = false) (le : limit ≤ bound)
    (change : Atom env config provider limit w w') : Sealed env masterKey root bound w' := by
  refine inv.atom change ?_
  intro i ecdsaKey pubkey below expanded known enabled _ stores
  cases stores with
  | falcon scheme => simp [PQCConfig.storesFalcon, enabled, scheme] at plain
  | plain _ unencrypted => simp [inv.encrypted] at unencrypted
  | @crypted pqcPub _ secret _ _ derived encrypts =>
    rw [inv.master_of_unlocked unlocked] at encrypts
    have decrypts : Decrypts env masterKey pubkey (pqcPub, secret) := by
      rw [Decrypts,
        generates.inverts.decrypts (deriveDilithium_priv_ne generates derived) encrypts]
      rfl
    exact { inv with
      noDbPqcKeys := by
        show w.db.pqcKeys.erase pubkey = ∅
        rw [inv.noDbPqcKeys]
        rfl
      cryptedPqc := inv.cryptedPqc.insert ⟨pubkey, known, rfl, decrypts⟩
      dbCryptedPqc := inv.dbCryptedPqc.insert ⟨⟨i, below.trans_le le, expanded⟩, decrypts⟩ }

theorem topUpPubkey_ok (generates : Generates env masterKey root)
    (master : w.vMasterKey = masterKey) (i : Nat) (privKeys : KeyMap) (pubkey : CPubKey) :
    (topUpPubkey env config i privKeys w pubkey).2 = true := by
  unfold topUpPubkey
  split
  · rfl
  · dsimp only
    split
    · rfl
    · split
      · rfl
      · unfold topUpPqcKey
        split
        · split <;> rfl
        · split
          · rfl
          next derived =>
            split
            · obtain ⟨secret, encrypts, -⟩ := generates.inverts _
                (deriveDilithium_priv_ne generates derived) (env.crypto.getHash pubkey)
              simp [addPubkey, master, encrypts]
            · rfl

theorem Sealed.topUpIndex_ok (inv : Sealed env masterKey root bound w)
    (generates : Generates env masterKey root) (unlocked : w.isLocked = false)
    (same : SameKeys w w') (i : Nat) : (topUpIndex env config (w.getKeys env) w' i).2 = true := by
  have master : w'.vMasterKey = masterKey := same.master.trans (inv.master_of_unlocked unlocked)
  obtain ⟨items, expands⟩ := generates.expands i
  have expanded : ∃ added, w'.expandIndex env (w.getKeys env) i = some added := by
    unfold expandIndex
    split
    all_goals simp [inv.getKeys_unlocked unlocked, expands]
  obtain ⟨added, expanded⟩ := expanded
  have loops (privKeys : KeyMap) : (loop (topUpPubkey env config i privKeys)
      (env.desc.pubkeys i) (w'.addScripts env i)).2 = (env.desc.pubkeys i).all fun _ => true := by
    refine loop_eq_all (fun w => w.vMasterKey = masterKey) _ ?_ ?_ master
    · intro w pubkey _ master
      exact (topUpPubkey_sameKeys i privKeys pubkey).master.trans master
    · intro w pubkey _ master
      exact topUpPubkey_ok generates master i privKeys pubkey
  unfold topUpIndex
  grind

theorem Sealed.topUp_ok (inv : Sealed env masterKey root bound w)
    (generates : Generates env masterKey root) (unlocked : w.isLocked = false) {size : Nat}
    {ok : Bool} (topped : w.topUp env config size = .ok (w', ok)) : ok = true := by
  have fixed : w.fixRange env = w := if_pos generates.ranged
  have done : (loop (topUpIndex env config (w.getKeys env)) (List.range' w.mCachedCount
      (w.newRangeEnd env config size - w.mCachedCount)) w).2 = true := by
    rw [loop_eq_all (SameKeys w) (fun _ => true) ?_ ?_ (SameKeys.refl w)]
    · simp
    · intro w' i _ same
      exact same.trans (Atoms.sameKeys (topUpIndex_atoms (Nat.lt_succ_self i)))
    · intro w' i _ same
      exact inv.topUpIndex_ok generates unlocked same i
  unfold topUp at topped
  grind

theorem Unlockable.finishTopUp {rangeEnd : Nat} (inv : Sealed env masterKey root rangeEnd w)
    (rangeStart : w.rangeStart = 0) : Unlockable env masterKey root (w.finishTopUp rangeEnd) :=
  { inv with
    rangeStart
    written := ⟨w.nextIndex, by
      show some (w.rangeStart, rangeEnd, w.nextIndex) = _
      rw [rangeStart]
      rfl⟩ }

theorem Unlockable.topUp (inv : Unlockable env masterKey root w)
    (generates : Generates env masterKey root)
    (avoids : w.isLocked = true ∨ config.storesFalcon = false) {size : Nat} {ok : Bool}
    (topped : w.topUp env config size = .ok (w', ok)) :
    Unlockable env masterKey root w' ∧ w'.isLocked = w.isLocked := by
  obtain ⟨last, atoms, result⟩ := topUp_atoms topped
  rw [show w.fixRange env = w from if_pos generates.ranged] at atoms
  have grows : w.rangeEnd ≤ w.newRangeEnd env config size := by
    simp [newRangeEnd, generates.ranged]
  have locked : last.isLocked = w.isLocked := atoms.sameKeys.isLocked
  have range := atoms.sameRange
  have start : last.rangeStart = 0 := range.rangeStart.trans inv.rangeStart
  cases lock : w.isLocked with
  | true =>
    have kept : Sealed env masterKey root w.rangeEnd last := by
      rw [inv.getKeys_locked lock] at atoms
      clear result locked range start
      induction atoms with
      | refl => exact inv.toSealed
      | tail before change ih =>
        exact ih.atom_locked ((Atoms.sameKeys before).isLocked.trans lock) change
    rcases result with ⟨-, rfl⟩ | ⟨-, -, rfl⟩
    · obtain ⟨nextIndex, written⟩ := inv.written
      refine ⟨⟨range.rangeEnd.symm ▸ kept, start, nextIndex, ?_⟩, locked.trans lock⟩
      rw [range.written, written, range.rangeEnd]
    · exact ⟨Unlockable.finishTopUp (kept.mono grows) start, locked.trans lock⟩
  | false =>
    have plain := avoids.resolve_left (by simp [lock])
    have kept : Sealed env masterKey root (w.newRangeEnd env config size) last := by
      clear result locked range start
      induction atoms with
      | refl => exact inv.toSealed.mono grows
      | tail before change ih =>
        exact ih.atom_unlocked generates ((Atoms.sameKeys before).isLocked.trans lock) plain
          le_rfl change
    rcases result with ⟨failed, -⟩ | ⟨-, -, rfl⟩
    · simp [inv.topUp_ok generates lock topped] at failed
    · exact ⟨Unlockable.finishTopUp kept start, locked.trans lock⟩

/-! ## Runs -/

theorem Unlockable.addresses (generates : Generates env masterKey root) {locked : Bool}
    (avoids : locked = true ∨ config.storesFalcon = false) :
    Addresses env config fun w => Unlockable env masterKey root w ∧ w.isLocked = locked where
  topUp := by
    rintro w w' size ok ⟨inv, rfl⟩ topped
    exact inv.topUp generates avoids topped
  take := by
    rintro w ⟨inv, locked⟩ _
    obtain ⟨scripts, frame⟩ := @takeDestination_frame _ env config w
    rw [frame]
    exact ⟨{ inv with written := ⟨w.nextIndex + 1, by simp [writeDescriptor, inv.rangeStart]⟩ }, locked⟩
  next := by
    rintro w index ⟨inv, locked⟩
    exact ⟨{ inv with }, locked⟩
  write := by
    rintro w ⟨inv, locked⟩
    exact ⟨{ inv with written := ⟨w.nextIndex, by simp [writeDescriptor, inv.rangeStart]⟩ }, locked⟩

theorem Unlockable.load (inv : Unlockable env masterKey root w)
    (loaded : load env w.db = some w') : Unlockable env masterKey root w' := by
  obtain ⟨nextIndex, written⟩ := inv.written
  obtain ⟨secret, decrypts, -, dbCrypted⟩ := inv.crypted
  obtain ⟨range, cached, written', done, rfl⟩ := load_eq_some loaded
  obtain rfl : (0, w.rangeEnd, nextIndex) = range := Option.some.inj (written.symm.trans written')
  obtain ⟨scripts, pubkeys, count, frame⟩ := @setCache_frame _ env
    (List.range' 0 (w.rangeEnd - 0)) (empty w.db (0, w.rangeEnd, nextIndex))
  have known {pubkey : CPubKey} : pubkey ∈ cached.mMapPubkeys ↔
      ∃ i < w.rangeEnd, pubkey ∈ env.desc.pubkeys i := by
    rw [mem_setCache done]
    simp [empty]
  rw [done] at frame
  obtain rfl : cached = _ := frame
  -- of the records only those of encrypted keys are there
  rw [inv.noDbKeys, dbCrypted, inv.noDbPqcKeys]
  let start : SpkMan Cache :=
    { empty w.db (0, w.rangeEnd, nextIndex) with
      mMapScriptPubKeys := scripts, mMapPubkeys := pubkeys, mCachedCount := count
      mMapCryptedKeys := AList.singleton (env.crypto.getID (env.crypto.getPubKey root))
        (env.crypto.getPubKey root, secret) }
  suffices kept : Unlockable env masterKey root
      (w.db.cryptedPqcKeys.entries.foldl (addCryptedPQCKey env) start) ∧
      (w.db.cryptedPqcKeys.entries.foldl (addCryptedPQCKey env) start).mMapPubkeys = pubkeys from
    kept.1
  refine List.foldlRecOn (motive := fun w' : SpkMan Cache =>
    Unlockable env masterKey root w' ∧ w'.mMapPubkeys = pubkeys) _ _ ⟨?_, rfl⟩ ?_
  · exact { inv with
      encrypted := inv.dbEncrypted
      master := .inl rfl
      noKeys := rfl
      noPqcKeys := rfl
      crypted := ⟨secret, decrypts, rfl, dbCrypted⟩
      listed := fun pubkey entered => (known.mp entered).imp fun _ listed => listed.2
      cryptedPqc := .empty
      rangeStart := rfl
      written := ⟨nextIndex, written⟩ }
  · rintro w' ⟨inv', same⟩ entry listed
    obtain ⟨scripts', frame⟩ := @addCryptedPQCKey_frame _ env w' entry
    obtain ⟨owned, decrypts⟩ := inv.dbCryptedPqc _ _ (lookup_of_mem_entries listed)
    rw [frame]
    refine ⟨{ inv' with
      noPqcKeys := by
        show w'.mMapPqcKeys.erase _ = ∅
        rw [inv'.noPqcKeys]
        rfl
      cryptedPqc := inv'.cryptedPqc.insert ⟨entry.1, ?_, rfl, decrypts⟩ }, same⟩
    rw [same]
    exact known.mpr owned

theorem Unlockable.step (inv : Unlockable env masterKey root w)
    (generates : Generates env masterKey root) {op : Op} (use : op.isUse = true)
    (avoids : w.AvoidsFalcon op) : Unlockable env masterKey root (w.step env masterKey op) := by
  have reloaded {left : SpkMan Cache} (leftInv : Unlockable env masterKey root left) :
      Unlockable env masterKey root (w.reload env left.db) := by
    unfold reload
    cases loaded : SpkMan.load env left.db with
    | none => exact inv
    | some w' => exact leftInv.load loaded
  have addresses {config : PQCConfig} (storing : config ∈ op.config) :
      Addresses env config fun w' => Unlockable env masterKey root w' ∧ w'.isLocked = w.isLocked :=
    Unlockable.addresses generates (avoids.imp_right fun plain => plain config storing)
  have kept : Keeps (Unlockable env masterKey root) (w.attempt env masterKey op) := by
    cases op with
    | topUp config size => exact ((addresses rfl).keeps_topUp size ⟨inv, rfl⟩).mono fun _ => And.left
    | getNewDestination config =>
      exact ((addresses rfl).keeps_getNewDestination ⟨inv, rfl⟩).mono fun _ => And.left
    | returnDestination index =>
      have addresses := @Unlockable.addresses _ env masterKey root ⟨false, .falcon⟩ generates
        w.isLocked (.inr rfl)
      exact (addresses.keeps_returnDestination index ⟨inv, rfl⟩).1
    | markUnusedAddresses config script =>
      exact ((addresses rfl).keeps_markUnusedAddresses script ⟨inv, rfl⟩).mono fun _ => And.left
    | lock => exact inv.lock
    | unlock => exact inv.unlock generates
    | encryptWallet =>
      show Keeps _ (w.encryptWallet env masterKey)
      rwa [encryptWallet, if_pos inv.encrypted]
    | reload => exact reloaded inv
    | importAgain => cases use
  unfold SpkMan.step
  split
  next done => rwa [done] at kept
  next failed =>
    rw [failed] at kept
    obtain ⟨left, leftInv, rfl⟩ := kept
    exact reloaded leftInv

theorem Unlockable.created (generates : Generates env masterKey root)
    (plain : config.storesFalcon = false)
    (created : (fresh env (some masterKey) (0, 0, 0)).setupDescriptorGeneration env config root
      = .ok w) : Unlockable env masterKey root w := by
  obtain ⟨secret, encrypts, decrypts⟩ := generates.inverts _ generates.valid.keydata_ne
    (env.crypto.getHash (env.crypto.getPubKey root))
  let start : SpkMan Cache := fresh env (some masterKey) (0, 0, 0)
  let keyed : SpkMan Cache :=
    { start with
      mMapCryptedKeys := AList.singleton (env.crypto.getID (env.crypto.getPubKey root))
        (env.crypto.getPubKey root, secret)
      db := start.db.writeCryptedKey (env.crypto.getPubKey root) secret }
  have added : start.addDescriptorKey env root = (keyed, true) := by
    simp [addDescriptorKey, start, keyed, fresh, isLocked, generates.masterKey_ne, encrypts]
  have inv : Unlockable env masterKey root keyed.writeDescriptor :=
    { encrypted := rfl
      dbEncrypted := rfl
      master := .inr rfl
      noKeys := rfl
      noDbKeys := rfl
      noPqcKeys := rfl
      noDbPqcKeys := rfl
      crypted := ⟨secret, generates.valid.decryptKey_eq decrypts, rfl, rfl⟩
      listed := fun pubkey known => absurd known (AList.notMem_empty pubkey)
      cryptedPqc := .empty
      dbCryptedPqc := .empty
      rangeStart := rfl
      written := ⟨0, rfl⟩ }
  rw [setupDescriptorGeneration, added] at created
  have kept := (Unlockable.addresses generates (.inr plain)).keeps_topUp 0 ⟨inv, rfl⟩
  dsimp only at created
  rw [created] at kept
  exact kept.1

/-- **The passphrase unlocks the wallet as long as it stores no Falcon keys.**  A wallet is
created with a passphrase and used; no step, and not the creation, tops up unlocked under a
configuration that prefers Falcon.  Then `CheckDecryptionKey` accepts the master key in every
state on the way. -/
theorem unlockable_throughout (generates : Generates env masterKey root)
    (created : (fresh env (some masterKey) (0, 0, 0)).setupDescriptorGeneration env config root
      = .ok w)
    (plain : config.storesFalcon = false) {ops : List Op}
    (avoids : StepsMeet (step env masterKey) (fun w op => op.isUse = true ∧ w.AvoidsFalcon op) w ops) :
    ∀ done, done <+: ops →
      (checkDecryptionKey env masterKey (done.foldl (step env masterKey) w)).2 = some true := by
  intro done isPrefix
  have inv := avoids.throughout (Unlockable env masterKey root)
    (fun w op inv meets => inv.step generates meets.1 meets.2)
    (Unlockable.created generates plain created) done isPrefix
  rw [inv.checkDecryptionKey_eq generates]

theorem plainEnv_generates : Generates plainEnv plainMasterKey rootKey where
  inverts := plainCrypto_inverts plainMasterKey
  masterKey_ne := by decide
  valid := rootKey_valid
  pqcPriv_ne := by
    intro seed pqcPub pqcPriv derived
    have priv : 7 :: seed = pqcPriv := (Prod.mk.inj (Option.some.inj derived)).2
    rw [← priv]
    exact List.cons_ne_nil _ _
  ranged := rfl
  expands _ := ⟨true, plainDescriptor_expand (mem_singleton_self _ _) rfl⟩
  distinct := by
    intro i j pubkey other listed listed'
    have four : ∀ a b : Fin 4, plainCrypto.getID (plainPubKey (childKey a))
        = plainCrypto.getID (plainPubKey (childKey b)) →
        plainPubKey (childKey a) = plainPubKey (childKey b) := by decide +kernel
    have child (n : Nat) : childKey n = childKey (Fin.ofNat 4 n) := by
      simp [childKey]
    rw [List.mem_singleton.mp listed, List.mem_singleton.mp listed', child i, child j]
    exact four _ _

/-- A wallet with a Dilithium key, locked, topped up and loaded again. -/
theorem unlockable_dilithiumWallet :
    (checkDecryptionKey plainEnv plainMasterKey
      ([Op.lock, .getNewDestination falconConfig, .reload, .unlock,
        .getNewDestination dilithiumConfig, .reload].foldl (step plainEnv plainMasterKey)
        (createdWallet true dilithiumConfig))).2 = some true := by
  have created := created_eq true dilithiumConfig (by decide +kernel)
  exact unlockable_throughout plainEnv_generates created rfl (by decide +kernel) _
    (List.prefix_refl _)

/-- A wallet created with a passphrase under the default configuration does not accept it. -/
theorem falconWallet_locked_out : Generates plainEnv plainMasterKey rootKey ∧
    (fresh plainEnv (some plainMasterKey) (0, 0, 0)).setupDescriptorGeneration plainEnv falconConfig
      rootKey = .ok (createdWallet true falconConfig) ∧
    (checkDecryptionKey plainEnv plainMasterKey (createdWallet true falconConfig).lock).2
      = some false := by
  have created := created_eq true falconConfig (by decide +kernel)
  exact ⟨plainEnv_generates, created, by decide +kernel⟩

end SpkMan

end QuantBTC.Wallet
