/-
# Wallet.Encryption -- encrypting the keys of a wallet

`Encrypt` goes through the private keys, forgets those in the clear, and goes through the
post-quantum keys after that.  A Falcon key is stored without its private half, so there is
nothing of it to encrypt and `Encrypt` fails, with the private keys gone from the map in the
clear.
-/
import QuantBTC.Theory.Maps
import QuantBTC.Wallet.Runs

namespace QuantBTC.Wallet

set_option autoImplicit false

open Primitives Script Theory.Loops Theory.Maps

variable {Cache : Type} (env : WalletEnv Cache)

namespace SpkMan

/-! ## The loops of `Encrypt` -/

section

variable (writes : CPubKey → Bool) (masterKey : Bytes)

def keyEncrypts (entry : (_ : CKeyID) × CKey) : Bool :=
  (env.crypto.encryptSecret masterKey entry.2.keydata
    (env.crypto.getHash (env.crypto.getPubKey entry.2))).isSome

def pqcKeyEncrypts (w : SpkMan Cache) (entry : (_ : CKeyID) × HybridKey) : Bool :=
  (w.sealPqcKey env masterKey entry).any fun sealed => writes sealed.1

variable {env writes masterKey} {w : SpkMan Cache}

theorem encryptKey_frame (entry : (_ : CKeyID) × CKey) : ∃ crypted db,
    (encryptKey env writes masterKey w entry).1 = { w with mMapCryptedKeys := crypted, db } := by
  unfold encryptKey
  dsimp only
  split <;> exact ⟨_, _, rfl⟩

theorem encryptKey_ok (entry : (_ : CKeyID) × CKey) :
    (encryptKey env writes masterKey w entry).2 = keyEncrypts env masterKey entry := by
  unfold encryptKey keyEncrypts
  grind

theorem encryptKey_of_fail {entry : (_ : CKeyID) × CKey}
    (fails : keyEncrypts env masterKey entry = false) :
    encryptKey env writes masterKey w entry = (w, false) := by
  grind [keyEncrypts, Option.isSome_eq_false_iff, Option.isNone_iff_eq_none, encryptKey]

theorem encryptPqcKey_frame (entry : (_ : CKeyID) × HybridKey) : ∃ crypted db,
    (encryptPqcKey env writes masterKey w entry).1 = { w with mMapCryptedPqcKeys := crypted, db } := by
  unfold encryptPqcKey
  split
  · exact ⟨_, _, rfl⟩
  · split
    · exact ⟨_, _, rfl⟩
    · exact ⟨_, _, rfl⟩

theorem encryptPqcKey_ok (entry : (_ : CKeyID) × HybridKey) :
    (encryptPqcKey env writes masterKey w entry).2 = pqcKeyEncrypts env writes masterKey w entry := by
  unfold encryptPqcKey pqcKeyEncrypts
  grind

theorem encryptKeys_frame (entries : List ((_ : CKeyID) × CKey)) : ∃ crypted db,
    (loop (encryptKey env writes masterKey) entries w).1
      = { w with mMapCryptedKeys := crypted, db } := by
  refine loop_invariant (fun w' => ∃ crypted db, w' = { w with mMapCryptedKeys := crypted, db })
    ?_ ⟨w.mMapCryptedKeys, w.db, rfl⟩
  rintro _ entry - ⟨crypted, db, rfl⟩
  exact encryptKey_frame (w := { w with mMapCryptedKeys := crypted, db }) entry

theorem encryptPqcKeys_frame (entries : List ((_ : CKeyID) × HybridKey)) : ∃ crypted db,
    (loop (encryptPqcKey env writes masterKey) entries w).1
      = { w with mMapCryptedPqcKeys := crypted, db } := by
  refine loop_invariant (fun w' => ∃ crypted db, w' = { w with mMapCryptedPqcKeys := crypted, db })
    ?_ ⟨w.mMapCryptedPqcKeys, w.db, rfl⟩
  rintro _ entry - ⟨crypted, db, rfl⟩
  exact encryptPqcKey_frame (w := { w with mMapCryptedPqcKeys := crypted, db }) entry

theorem encryptKeys_ok (entries : List ((_ : CKeyID) × CKey)) :
    (loop (encryptKey env writes masterKey) entries w).2
      = entries.all (keyEncrypts env masterKey) :=
  loop_eq_all (fun _ => True) _ (fun _ _ _ _ => trivial) (fun _ entry _ _ => encryptKey_ok entry)
    trivial

theorem sealPqcKey_congr {w' : SpkMan Cache} (same : w'.mMapPubkeys = w.mMapPubkeys) :
    w'.sealPqcKey env masterKey = w.sealPqcKey env masterKey := by
  funext entry
  simp [sealPqcKey, findPubkey, same]

theorem encryptPqcKeys_ok (entries : List ((_ : CKeyID) × HybridKey)) :
    (loop (encryptPqcKey env writes masterKey) entries w).2
      = entries.all (pqcKeyEncrypts env writes masterKey w) := by
  refine loop_eq_all (fun w' => w'.mMapPubkeys = w.mMapPubkeys) _ ?_ ?_ rfl
  · intro w' entry _ same
    obtain ⟨crypted, db, frame⟩ := encryptPqcKey_frame (w := w') entry
    rwa [frame]
  · intro w' entry _ same
    rw [encryptPqcKey_ok, pqcKeyEncrypts, pqcKeyEncrypts, sealPqcKey_congr same]

theorem encryptKeys_touches {entry : (_ : CKeyID) × CKey} (rest : List ((_ : CKeyID) × CKey))
    (encrypts : keyEncrypts env masterKey entry = true) :
    ∃ id, id ∈ (loop (encryptKey env writes masterKey) (entry :: rest) w).1.mMapCryptedKeys := by
  rw [loop_cons_of_ok (by rw [encryptKey_ok, encrypts])]
  refine loop_invariant (fun w' : SpkMan Cache => ∃ id, id ∈ w'.mMapCryptedKeys) ?_ ?_
  · rintro w' other - ⟨id, member⟩
    refine ⟨id, ?_⟩
    grind [encryptKey, AList.mem_insert]
  · obtain ⟨secret, encrypted⟩ := Option.isSome_iff_exists.mp encrypts
    simp [encryptKey, encrypted, AList.mem_insert, true_or]

theorem encryptPqcKeys_touches {entry : (_ : CKeyID) × HybridKey}
    (rest : List ((_ : CKeyID) × HybridKey)) {pubkey : CPubKey} {crypted : Bytes}
    (sealed : w.sealPqcKey env masterKey entry = some (pubkey, crypted)) :
    ∃ id, id ∈ (loop (encryptPqcKey env writes masterKey) (entry :: rest) w).1.mMapCryptedPqcKeys := by
  have first : entry.1 ∈ (encryptPqcKey env writes masterKey w entry).1.mMapCryptedPqcKeys := by
    grind [encryptPqcKey, AList.mem_insert]
  cases ok : (encryptPqcKey env writes masterKey w entry).2 with
  | false =>
    rw [loop_cons_of_fail ok]
    exact ⟨_, first⟩
  | true =>
    rw [loop_cons_of_ok ok]
    refine ⟨_, loop_invariant (fun w' : SpkMan Cache => entry.1 ∈ w'.mMapCryptedPqcKeys) ?_ first⟩
    grind [encryptPqcKey, AList.mem_insert]

end

/-! ## Success and failure -/

section

variable (writes : CPubKey → Bool) (masterKey : Bytes)

def encryptsAll (w : SpkMan Cache) : Bool :=
  w.mMapKeys.entries.all (keyEncrypts env masterKey) &&
    w.mMapPqcKeys.entries.all (pqcKeyEncrypts env writes masterKey w)

def FirstFails (w : SpkMan Cache) : Prop :=
  match w.mMapKeys.entries, w.mMapPqcKeys.entries with
  | entry :: _, _ => keyEncrypts env masterKey entry = false
  | [], entry :: _ => w.sealPqcKey env masterKey entry = none
  | [], [] => False

structure SameKeyMaps (w w' : SpkMan Cache) : Prop where
  keys : w'.mMapKeys = w.mMapKeys
  crypted : w'.mMapCryptedKeys = w.mMapCryptedKeys
  pqcKeys : w'.mMapPqcKeys = w.mMapPqcKeys
  cryptedPqc : w'.mMapCryptedPqcKeys = w.mMapCryptedPqcKeys

variable {env writes masterKey} {w : SpkMan Cache}

variable (env writes masterKey w) in
def keysEncrypted : SpkMan Cache :=
  { (loop (encryptKey env writes masterKey) w.mMapKeys.entries w).1 with mMapKeys := ∅ }

variable (env writes masterKey w) in
def pqcKeysEncrypted : SpkMan Cache × Bool :=
  loop (encryptPqcKey env writes masterKey) w.mMapPqcKeys.entries
    (w.keysEncrypted env writes masterKey)

theorem keysEncrypted_frame : ∃ crypted db, w.keysEncrypted env writes masterKey
    = { w with mMapKeys := ∅, mMapCryptedKeys := crypted, db } := by
  obtain ⟨crypted, db, frame⟩ := encryptKeys_frame (w := w) w.mMapKeys.entries
  exact ⟨crypted, db, by rw [keysEncrypted, frame]⟩

theorem keysEncrypted_of_noKeys (none : w.mMapKeys.entries = []) :
    w.keysEncrypted env writes masterKey = w := by
  have empty : w.mMapKeys = ∅ := AList.ext none
  rw [keysEncrypted, none, loop_nil, ← empty]

theorem pqcKeysEncrypted_ok : (w.pqcKeysEncrypted env writes masterKey).2
    = w.mMapPqcKeys.entries.all (pqcKeyEncrypts env writes masterKey w) := by
  obtain ⟨crypted, db, frame⟩ := keysEncrypted_frame (w := w)
  rw [pqcKeysEncrypted, encryptPqcKeys_ok, frame]
  rfl

theorem pqcKeysEncrypted_frame : ∃ cryptedPqc db, (w.pqcKeysEncrypted env writes masterKey).1
    = { w.keysEncrypted env writes masterKey with mMapCryptedPqcKeys := cryptedPqc, db } :=
  encryptPqcKeys_frame _

theorem encrypt_eq (noCrypted : w.mMapCryptedKeys = ∅) (noCryptedPqc : w.mMapCryptedPqcKeys = ∅) :
    encrypt env writes masterKey w =
      if w.mMapKeys.entries.all (keyEncrypts env masterKey) then
        if (w.pqcKeysEncrypted env writes masterKey).2 then
          ({ (w.pqcKeysEncrypted env writes masterKey).1 with mMapPqcKeys := ∅ }, true)
        else ((w.pqcKeysEncrypted env writes masterKey).1, false)
      else ((loop (encryptKey env writes masterKey) w.mMapKeys.entries w).1, false) := by
  have ok : (loop (encryptKey env writes masterKey) w.mMapKeys.entries w).2 = _ := encryptKeys_ok _
  obtain ⟨crypted, db, frame⟩ := @keysEncrypted_frame _ env writes masterKey w
  unfold encrypt
  rw [if_neg (by simp [noCrypted, noCryptedPqc]), ← ok]
  split
  next failed => simp [failed]
  next w' done =>
    have pqc : w'.mMapPqcKeys = w.mMapPqcKeys := by
      simpa [keysEncrypted, done] using congrArg mMapPqcKeys frame
    rw [done, if_pos rfl]
    split
    next failed => simp [pqcKeysEncrypted, keysEncrypted, done, ← pqc, failed]
    next finished => simp [pqcKeysEncrypted, keysEncrypted, done, ← pqc, finished]

theorem encrypt_snd (noCrypted : w.mMapCryptedKeys = ∅) (noCryptedPqc : w.mMapCryptedPqcKeys = ∅) :
    (encrypt env writes masterKey w).2 = w.encryptsAll env writes masterKey := by
  rw [encrypt_eq noCrypted noCryptedPqc, encryptsAll, ← pqcKeysEncrypted_ok]
  grind

theorem encrypt_touches (noCrypted : w.mMapCryptedKeys = ∅)
    (noCryptedPqc : w.mMapCryptedPqcKeys = ∅) {entry : (_ : CKeyID) × CKey}
    {rest : List ((_ : CKeyID) × CKey)} (keys : w.mMapKeys.entries = entry :: rest)
    (encrypts : keyEncrypts env masterKey entry = true) :
    ∃ id, id ∈ (encrypt env writes masterKey w).1.mMapCryptedKeys := by
  obtain ⟨id, touched⟩ := @encryptKeys_touches _ env writes masterKey w _ rest encrypts
  refine ⟨id, ?_⟩
  rw [← keys] at touched
  obtain ⟨cryptedPqc, db, frame⟩ := @pqcKeysEncrypted_frame _ env writes masterKey w
  rw [encrypt_eq noCrypted noCryptedPqc]
  split
  · split
    all_goals
      rwa [frame]
  · exact touched

theorem encrypt_same_iff (noCrypted : w.mMapCryptedKeys = ∅)
    (noCryptedPqc : w.mMapCryptedPqcKeys = ∅) (failed : (encrypt env writes masterKey w).2 = false) :
    SameKeyMaps w (encrypt env writes masterKey w).1 ↔ w.FirstFails env masterKey := by
  unfold FirstFails
  split
  next entry rest keys =>
    cases encrypts : keyEncrypts env masterKey entry with
    | true =>
      obtain ⟨id, touched⟩ :=
        @encrypt_touches _ env writes masterKey w noCrypted noCryptedPqc _ _ keys encrypts
      refine iff_of_false (fun same => ?_) nofun
      rw [same.crypted, noCrypted] at touched
      exact AList.notMem_empty id touched
    | false =>
      refine iff_of_true ?_ rfl
      have fails : encryptKey env writes masterKey w entry = (w, false) :=
        encryptKey_of_fail encrypts
      rw [encrypt_eq noCrypted noCryptedPqc, if_neg (by simp [keys, encrypts]), keys,
        loop_cons_of_fail (by rw [fails]), fails]
      exact ⟨rfl, rfl, rfl, rfl⟩
  next entry rest keys pqc =>
    have failedPqc : (w.pqcKeysEncrypted env writes masterKey).2 = false := by
      rwa [encrypt_snd noCrypted noCryptedPqc, encryptsAll, keys, List.all_nil, Bool.true_and,
        ← pqcKeysEncrypted_ok] at failed
    have result : (encrypt env writes masterKey w).1
        = (loop (encryptPqcKey env writes masterKey) (entry :: rest) w).1 := by
      rw [encrypt_eq noCrypted noCryptedPqc, keys, List.all_nil, if_pos rfl, failedPqc,
        if_neg Bool.false_ne_true, pqcKeysEncrypted, pqc, keysEncrypted_of_noKeys keys]
    rw [result]
    cases sealed : w.sealPqcKey env masterKey entry with
    | none =>
      have fails : encryptPqcKey env writes masterKey w entry = (w, false) := by
        simp only [encryptPqcKey, sealed]
      rw [loop_cons_of_fail (by rw [fails]), fails]
      exact iff_of_true ⟨rfl, rfl, rfl, rfl⟩ rfl
    | some pair =>
      obtain ⟨id, touched⟩ := @encryptPqcKeys_touches _ env writes masterKey w _ rest _ _ sealed
      refine iff_of_false (fun same => ?_) nofun
      rw [same.cryptedPqc, noCryptedPqc] at touched
      exact AList.notMem_empty id touched
  next keys pqc =>
    rw [encrypt_snd noCrypted noCryptedPqc] at failed
    simp [encryptsAll, keys, pqc] at failed

end

/-! ## Recovery -/

section

variable (masterKey : Bytes)

structure Recovers (w w' : SpkMan Cache) : Prop where
  keys : ∀ id key, w.mMapKeys.lookup id = some key →
    ∃ pubkey secret, w'.mMapCryptedKeys.lookup id = some (pubkey, secret) ∧
      env.crypto.decryptKey masterKey secret pubkey = (key, true)
  pqcKeys : ∀ id hybrid, w.mMapPqcKeys.lookup id = some hybrid →
    ∃ pubkey secret, w'.mMapCryptedPqcKeys.lookup id = some (hybrid.mPqcPublicKey, secret) ∧
      w'.findPubkey env id = some pubkey ∧
      env.crypto.decryptSecret masterKey secret (env.crypto.getHash pubkey)
        = some hybrid.mPqcPrivateKey

def pqcKeysComplete (w : SpkMan Cache) : Bool :=
  w.mMapPqcKeys.entries.all fun entry =>
    entry.2.hasPQCPrivateKey && (w.findPubkey env entry.1).isSome

def OwnKey (id : CKeyID) (key : CKey) : Prop :=
  id = env.crypto.getID (env.crypto.getPubKey key) ∧ env.crypto.Valid key

variable {env masterKey} {writes : CPubKey → Bool} {w w' : SpkMan Cache}

theorem sealPqcKey_eq_some {entry : (_ : CKeyID) × HybridKey} {pubkey : CPubKey} {crypted : Bytes}
    (sealed : w.sealPqcKey env masterKey entry = some (pubkey, crypted)) :
    entry.2.mPqcPrivateKey ≠ [] ∧ w.findPubkey env entry.1 = some pubkey ∧
      env.crypto.encryptSecret masterKey entry.2.mPqcPrivateKey (env.crypto.getHash pubkey)
        = some crypted := by
  simp only [sealPqcKey, HybridKey.getPQCPrivateKey, Option.bind_eq_bind, Option.bind_eq_some_iff,
    Option.ite_none_left_eq_some, Option.some.injEq, Prod.mk.injEq] at sealed
  grind

theorem keyEncrypts_of_valid (inverts : env.crypto.Inverts masterKey) {entry : (_ : CKeyID) × CKey}
    (valid : env.crypto.Valid entry.2) : keyEncrypts env masterKey entry = true := by
  obtain ⟨crypted, encrypted, -⟩ := inverts _ valid.keydata_ne
    (env.crypto.getHash (env.crypto.getPubKey entry.2))
  rw [keyEncrypts, encrypted, Option.isSome_some]

theorem pqcKeyEncrypts_eq (inverts : env.crypto.Inverts masterKey)
    (entry : (_ : CKeyID) × HybridKey) :
    pqcKeyEncrypts env (fun _ => true) masterKey w entry
      = (entry.2.hasPQCPrivateKey && (w.findPubkey env entry.1).isSome) := by
  unfold pqcKeyEncrypts sealPqcKey HybridKey.getPQCPrivateKey HybridKey.hasPQCPrivateKey
  by_cases missing : entry.2.mPqcPrivateKey = []
  · simp [missing]
  · cases found : w.findPubkey env entry.1 with
    | none => simp [missing]
    | some pubkey =>
      obtain ⟨crypted, encrypted, -⟩ := inverts _ missing (env.crypto.getHash pubkey)
      simp [missing, encrypted]

theorem encryptsAll_eq (inverts : env.crypto.Inverts masterKey)
    (own : AllEntries (OwnKey env) w.mMapKeys) :
    w.encryptsAll env (fun _ => true) masterKey = w.pqcKeysComplete env := by
  have keys : w.mMapKeys.entries.all (keyEncrypts env masterKey) = true := by
    rw [List.all_eq_true]
    intro entry listed
    exact keyEncrypts_of_valid inverts (own _ _ (lookup_of_mem_entries listed)).2
  rw [encryptsAll, keys, Bool.true_and, pqcKeysComplete]
  congr 1
  funext entry
  exact pqcKeyEncrypts_eq inverts entry

theorem encrypt_eq_true (noCrypted : w.mMapCryptedKeys = ∅)
    (noCryptedPqc : w.mMapCryptedPqcKeys = ∅) (done : encrypt env writes masterKey w = (w', true)) :
    w.mMapKeys.entries.all (keyEncrypts env masterKey) = true ∧
      (w.pqcKeysEncrypted env writes masterKey).2 = true ∧
      w' = { (w.pqcKeysEncrypted env writes masterKey).1 with mMapPqcKeys := ∅ } := by
  grind [encrypt_eq, Prod.mk.inj]

theorem entry_eq_of_key_eq {ν : Type} {m : StdMap CKeyID ν} {entry other : (_ : CKeyID) × ν}
    (listed : entry ∈ m.entries) (listed' : other ∈ m.entries) (same : other.1 = entry.1) :
    other = entry := by
  have found := lookup_of_mem_entries listed
  grind [lookup_of_mem_entries, Sigma.ext, Option.some.inj]

theorem encryptKeys_stores (own : AllEntries (OwnKey env) w.mMapKeys)
    (ok : w.mMapKeys.entries.all (keyEncrypts env masterKey) = true) :
    ∀ entry ∈ w.mMapKeys.entries, ∃ crypted,
      env.crypto.encryptSecret masterKey entry.2.keydata
        (env.crypto.getHash (env.crypto.getPubKey entry.2)) = some crypted ∧
      (loop (encryptKey env writes masterKey) w.mMapKeys.entries w).1.mMapCryptedKeys.lookup entry.1
        = some (env.crypto.getPubKey entry.2, crypted) := by
  refine loop_establishes (fun _ => True) (fun entry (w' : SpkMan Cache) => ∃ crypted,
    env.crypto.encryptSecret masterKey entry.2.keydata
      (env.crypto.getHash (env.crypto.getPubKey entry.2)) = some crypted ∧
    w'.mMapCryptedKeys.lookup entry.1 = some (env.crypto.getPubKey entry.2, crypted))
    (fun _ _ _ _ => trivial) ?_ ?_ w.mMapKeys.nodupKeys.nodup trivial
    ((encryptKeys_ok _).trans ok)
  · intro w' entry listed _ encrypts
    rw [encryptKey_ok] at encrypts
    obtain ⟨crypted, encrypted⟩ := Option.isSome_iff_exists.mp encrypts
    refine ⟨crypted, encrypted, ?_⟩
    obtain ⟨id, key⟩ := entry
    obtain rfl : id = env.crypto.getID (env.crypto.getPubKey key) :=
      (own _ _ (lookup_of_mem_entries listed)).1
    simp only [encryptKey, encrypted, AList.lookup_insert]
  · rintro w' entry listed other listed' different ⟨crypted, encrypted, stored⟩
    refine ⟨crypted, encrypted, ?_⟩
    unfold encryptKey
    dsimp only
    split
    · exact stored
    · rw [AList.lookup_insert_ne]
      · exact stored
      · rw [← (own _ _ (lookup_of_mem_entries listed)).1]
        exact fun same => different (entry_eq_of_key_eq listed listed' same)

theorem encryptPqcKeys_stores (ok : (w.pqcKeysEncrypted env writes masterKey).2 = true) :
    ∀ entry ∈ w.mMapPqcKeys.entries, ∃ pubkey crypted,
      w.sealPqcKey env masterKey entry = some (pubkey, crypted) ∧
      (w.pqcKeysEncrypted env writes masterKey).1.mMapCryptedPqcKeys.lookup entry.1
        = some (entry.2.mPqcPublicKey, crypted) := by
  refine loop_establishes (fun w' => w'.mMapPubkeys = w.mMapPubkeys)
    (fun entry (w' : SpkMan Cache) => ∃ pubkey crypted, w.sealPqcKey env masterKey entry = some (pubkey, crypted) ∧
      w'.mMapCryptedPqcKeys.lookup entry.1 = some (entry.2.mPqcPublicKey, crypted))
    ?_ ?_ ?_ w.mMapPqcKeys.nodupKeys.nodup ?_ ok
  · intro w' entry _ same
    obtain ⟨crypted, db, frame⟩ := @encryptPqcKey_frame _ env writes masterKey w' entry
    rwa [frame]
  · intro w' entry _ same encrypts
    unfold encryptPqcKey at encrypts ⊢
    rw [sealPqcKey_congr same] at encrypts ⊢
    grind [AList.lookup_insert]
  · grind [entry_eq_of_key_eq, encryptPqcKey, AList.lookup_insert_ne]
  · obtain ⟨crypted, db, frame⟩ := @keysEncrypted_frame _ env writes masterKey w
    rw [frame]

/-- **Whatever was encrypted can be decrypted.** -/
theorem encrypt_recovers (inverts : env.crypto.Inverts masterKey)
    (own : AllEntries (OwnKey env) w.mMapKeys) (noCrypted : w.mMapCryptedKeys = ∅)
    (noCryptedPqc : w.mMapCryptedPqcKeys = ∅) (done : encrypt env writes masterKey w = (w', true)) :
    Recovers env masterKey w w' := by
  obtain ⟨keys, pqc, rfl⟩ := encrypt_eq_true noCrypted noCryptedPqc done
  obtain ⟨cryptedPqc, db, frame⟩ := @pqcKeysEncrypted_frame _ env writes masterKey w
  refine ⟨?_, ?_⟩
  · intro id key found
    have listed := mem_entries_of_lookup found
    obtain ⟨crypted, encrypted, stored⟩ :=
      @encryptKeys_stores _ env masterKey writes w own keys _ listed
    refine ⟨env.crypto.getPubKey key, crypted, ?_, ?_⟩
    · rwa [frame]
    · have valid := (own _ _ found).2
      exact valid.decryptKey_eq (inverts.decrypts valid.keydata_ne encrypted)
  · intro id hybrid found
    obtain ⟨pubkey, crypted, sealed, stored⟩ :=
      encryptPqcKeys_stores pqc _ (mem_entries_of_lookup found)
    obtain ⟨present, known, encrypted⟩ := sealPqcKey_eq_some sealed
    refine ⟨pubkey, crypted, stored, ?_, ?_⟩
    · obtain ⟨crypted', db', frame'⟩ := @keysEncrypted_frame _ env writes masterKey w
      rwa [frame, frame']
    · exact inverts.decrypts present encrypted

end

/-! ## Reachable states -/

def OwnRecord (pubkey : CPubKey) (key : CKey) : Prop :=
  pubkey = env.crypto.getPubKey key ∧ env.crypto.Valid key

structure KeysOwned (w : SpkMan Cache) : Prop where
  master : w.db.hasMasterKey = w.hasEncryptionKeys
  keys : AllEntries (OwnKey env) w.mMapKeys
  dbKeys : AllEntries (OwnRecord env) w.db.keys
  noCrypted : w.hasEncryptionKeys = false → w.mMapCryptedKeys = ∅ ∧ w.db.cryptedKeys = ∅
  noCryptedPqc : w.hasEncryptionKeys = false → w.mMapCryptedPqcKeys = ∅ ∧ w.db.cryptedPqcKeys = ∅

variable {env}

namespace KeysOwned

variable {w w' : SpkMan Cache}

theorem atom {config : PQCConfig} {provider : KeyMap} {bound : Nat}
    (change : Atom env config provider bound w w') (inv : KeysOwned env w) : KeysOwned env w' := by
  have same := change.sameKeys
  refine ⟨?_, ?_, ?_, ?_, ?_⟩
  · rw [same.dbMaster, same.encrypted, inv.master]
  · rw [same.keys]
    exact inv.keys
  · rw [same.dbKeys]
    exact inv.dbKeys
  · rw [same.encrypted, same.crypted, same.dbCrypted]
    exact inv.noCrypted
  · rw [same.encrypted]
    intro unencrypted
    cases change with
    | script | pubkey | cache | count => exact inv.noCryptedPqc unencrypted
    | pqcKey _ _ _ _ _ _ _ _ stores =>
      cases stores with
      | falcon | plain => exact inv.noCryptedPqc unencrypted
      | crypted _ encrypted =>
        simp [encrypted] at unencrypted

theorem addresses (config : PQCConfig) : Addresses env config (KeysOwned env) where
  topUp inv topped :=
    topUp_keeps (fun _ _ inv => ⟨inv.1, inv.2, inv.3, inv.4, inv.5⟩)
      (fun inv => ⟨inv.1, inv.2, inv.3, inv.4, inv.5⟩) atom topped inv
  take {w} inv _ := by
    obtain ⟨scripts, frame⟩ := @takeDestination_frame _ env config w
    rw [frame]
    exact ⟨inv.1, inv.2, inv.3, inv.4, inv.5⟩
  next _ inv := ⟨inv.1, inv.2, inv.3, inv.4, inv.5⟩
  write inv := ⟨inv.1, inv.2, inv.3, inv.4, inv.5⟩

theorem addKey {key : CKey} (valid : env.crypto.Valid key) (inv : KeysOwned env w) :
    KeysOwned env (w.addDescriptorKey env key).1 := by
  unfold addDescriptorKey
  dsimp only
  split
  · exact inv
  · split
    next encrypted =>
      have never {P : Prop} : w.hasEncryptionKeys = false → P := by simp [encrypted]
      split
      · exact inv
      · split
        · exact inv
        · exact ⟨inv.master, inv.keys, inv.dbKeys.erase _, never, never⟩
    · exact ⟨inv.master, inv.keys.insert ⟨rfl, valid⟩, inv.dbKeys.insert ⟨rfl, valid⟩,
        inv.noCrypted, inv.noCryptedPqc⟩

theorem fresh (masterKey : Option Bytes) (range : Nat × Nat × Nat) :
    KeysOwned env (fresh env masterKey range) :=
  ⟨rfl, .empty, .empty, fun _ => ⟨rfl, rfl⟩, fun _ => ⟨rfl, rfl⟩⟩

theorem of_encrypted (encrypted : w.hasEncryptionKeys = true) (master : w.db.hasMasterKey = true)
    (keys : AllEntries (OwnKey env) w.mMapKeys) (dbKeys : AllEntries (OwnRecord env) w.db.keys) :
    KeysOwned env w := by
  refine ⟨master.trans encrypted.symm, keys, dbKeys, ?_, ?_⟩
  · simp [encrypted]
  · simp [encrypted]

theorem lock (inv : KeysOwned env w) : KeysOwned env w.lock :=
  ⟨inv.1, inv.2, inv.3, inv.4, inv.5⟩

theorem unlock {masterKey : Bytes} (inv : KeysOwned env w) :
    KeysOwned env (w.unlock env masterKey) := by
  cases encrypted : w.hasEncryptionKeys with
  | false => simpa [SpkMan.unlock, encrypted] using inv
  | true =>
    have master := inv.master.trans encrypted
    obtain ⟨checked, vMasterKey, frame | frame⟩ := @unlock_cases _ env masterKey w
    · rw [frame]
      exact of_encrypted encrypted master inv.keys inv.dbKeys
    · obtain ⟨pqcKeys, cryptedPqc, dbPqc, dbCryptedPqc, migrated⟩ :=
        @migrate_frame _ env masterKey w
      rw [frame, migrated]
      exact of_encrypted encrypted master inv.keys inv.dbKeys

theorem encrypt_keeps (Inv : SpkMan Cache → Prop) {writes : CPubKey → Bool} {masterKey : Bytes}
    (key : ∀ {w : SpkMan Cache} entry, Inv w → Inv (encryptKey env writes masterKey w entry).1)
    (clear : ∀ {w : SpkMan Cache}, Inv w → Inv { w with mMapKeys := ∅ })
    (pqcKey : ∀ {w : SpkMan Cache} entry, Inv w →
      Inv (encryptPqcKey env writes masterKey w entry).1)
    (clearPqc : ∀ {w : SpkMan Cache}, Inv w → Inv { w with mMapPqcKeys := ∅ })
    (inv : Inv w) : Inv (encrypt env writes masterKey w).1 := by
  have keys (entries) : Inv (loop (encryptKey env writes masterKey) entries w).1 :=
    loop_invariant Inv (fun _ entry _ => key entry) inv
  unfold encrypt
  split
  · exact inv
  · split
    next failed => simpa [failed] using keys w.mMapKeys.entries
    next w' done =>
      have between := keys w.mMapKeys.entries
      rw [done] at between
      have pqcKeys : Inv (loop (encryptPqcKey env writes masterKey) w'.mMapPqcKeys.entries
          { w' with mMapKeys := ∅ }).1 :=
        loop_invariant Inv (fun _ entry _ => pqcKey entry) (clear between)
      split
      next failed => simpa [failed] using pqcKeys
      next finished =>
        rw [finished] at pqcKeys
        exact clearPqc pqcKeys

theorem encrypt {writes : CPubKey → Bool} {masterKey : Bytes} (inv : KeysOwned env w)
    (encrypted : w.hasEncryptionKeys = true) :
    KeysOwned env (encrypt env writes masterKey w).1 := by
  suffices kept : KeysOwned env (SpkMan.encrypt env writes masterKey w).1 ∧
      (SpkMan.encrypt env writes masterKey w).1.hasEncryptionKeys = true from kept.1
  refine encrypt_keeps (fun w => KeysOwned env w ∧ w.hasEncryptionKeys = true)
    ?_ ?_ ?_ ?_ ⟨inv, encrypted⟩
  · rintro w entry ⟨inv, encrypted⟩
    unfold encryptKey
    dsimp only
    split
    · exact ⟨inv, encrypted⟩
    · have master := inv.master.trans encrypted
      cases writes (env.crypto.getPubKey entry.2) with
      | false => exact ⟨of_encrypted encrypted master inv.keys inv.dbKeys, encrypted⟩
      | true => exact ⟨of_encrypted encrypted master inv.keys (inv.dbKeys.erase _), encrypted⟩
  · rintro w ⟨inv, encrypted⟩
    exact ⟨of_encrypted encrypted (inv.master.trans encrypted) .empty inv.dbKeys, encrypted⟩
  · rintro w entry ⟨inv, encrypted⟩
    have master := inv.master.trans encrypted
    unfold encryptPqcKey
    split
    · exact ⟨inv, encrypted⟩
    · split
      all_goals exact ⟨of_encrypted encrypted master inv.keys inv.dbKeys, encrypted⟩
  · rintro w ⟨inv, encrypted⟩
    exact ⟨of_encrypted encrypted (inv.master.trans encrypted) inv.keys inv.dbKeys, encrypted⟩

theorem encryptWallet {masterKey : Bytes} (inv : KeysOwned env w)
    (done : w.encryptWallet env masterKey = .ok w') : KeysOwned env w' := by
  unfold SpkMan.encryptWallet at done
  split at done
  · cases done
    exact inv
  · split at done
    · cases done
    next finished =>
      cases done
      have encrypted := @encrypt _ env { w with
        hasEncryptionKeys := true, db := { w.db with hasMasterKey := true } } (fun _ => true)
        masterKey (of_encrypted rfl rfl inv.keys inv.dbKeys) rfl
      rw [finished] at encrypted
      exact lock (unlock (lock encrypted))

theorem load (inv : KeysOwned env w) (loaded : load env w.db = some w') : KeysOwned env w' := by
  refine (load_keeps (fun w' => KeysOwned env w' ∧ w'.db = w.db) ?_ ?_ ?_ ?_ ?_ ?_ loaded).1
  · intro range _
    refine ⟨⟨rfl, .empty, inv.dbKeys, ?_, ?_⟩, rfl⟩
    · exact fun unencrypted => ⟨rfl, (inv.noCrypted (inv.master.symm.trans unencrypted)).2⟩
    · exact fun unencrypted => ⟨rfl, (inv.noCryptedPqc (inv.master.symm.trans unencrypted)).2⟩
  · rintro w' i ⟨inv', same⟩ _
    obtain ⟨scripts, pubkeys, count, frame⟩ := @setCacheIndex_frame _ env w' i
    rw [frame]
    exact ⟨⟨inv'.1, inv'.2, inv'.3, inv'.4, inv'.5⟩, same⟩
  · rintro w' entry listed ⟨inv', same⟩
    obtain ⟨own, valid⟩ := inv.dbKeys _ _ (lookup_of_mem_entries listed)
    exact ⟨⟨inv'.1, inv'.2.insert ⟨by rw [own], valid⟩, inv'.3, inv'.4, inv'.5⟩, same⟩
  · rintro w' entry listed ⟨inv', same⟩
    obtain ⟨crypted, frame⟩ := @addCryptedKey_frame _ env w' entry
    rw [frame]
    refine ⟨⟨inv'.1, inv'.2, inv'.3, fun unencrypted => ?_, inv'.5⟩, same⟩
    rw [← same, (inv'.noCrypted unencrypted).2] at listed
    cases listed
  · rintro w' entry listed ⟨inv', same⟩
    obtain ⟨scripts, frame⟩ := @addPQCKey_frame _ env w' entry
    rw [frame]
    refine ⟨⟨inv'.1, inv'.2, inv'.3, inv'.4, fun unencrypted => ?_⟩, same⟩
    obtain ⟨none, dbNone⟩ := inv'.noCryptedPqc unencrypted
    exact ⟨by rw [none]; rfl, dbNone⟩
  · rintro w' entry listed ⟨inv', same⟩
    obtain ⟨scripts, frame⟩ := @addCryptedPQCKey_frame _ env w' entry
    rw [frame]
    refine ⟨⟨inv'.1, inv'.2, inv'.3, inv'.4, fun unencrypted => ?_⟩, same⟩
    rw [← same, (inv'.noCryptedPqc unencrypted).2] at listed
    cases listed

theorem closed (masterKey : Bytes) : Closed env masterKey env.crypto.Valid (KeysOwned env) where
  addresses := addresses
  fresh _ range := fresh _ range
  addKey := addKey
  update _ inv := ⟨inv.1, inv.2, inv.3, inv.4, inv.5⟩
  lock := lock
  unlock := unlock
  encryptWallet := encryptWallet
  load := load

end KeysOwned

/-- **`Encrypt` is total when every post-quantum key has its private half, and atomic when it
fails at once.**  In every reachable state of a wallet that is not encrypted:

* when the cipher and the writes work, `Encrypt` succeeds, with every key recoverable, exactly
  when every post-quantum key has its private half and a public key the manager knows;
* whatever the cipher and the writes do, a failure leaves the key maps unchanged exactly when
  every key is encrypted or the first one fails. -/
theorem encrypt_total_atomic_iff {w : SpkMan Cache} {masterKey : Bytes} {walletKey : Bytes}
    (reachable : Reachable env walletKey env.crypto.Valid w)
    (unencrypted : w.hasEncryptionKeys = false) :
    (env.crypto.Inverts masterKey →
      ((∃ w', encrypt env (fun _ => true) masterKey w = (w', true) ∧ Recovers env masterKey w w') ↔
        w.pqcKeysComplete env = true)) ∧
    ∀ writes, ((encrypt env writes masterKey w).2 = false →
        SameKeyMaps w (encrypt env writes masterKey w).1) ↔
      w.encryptsAll env writes masterKey = true ∨ w.FirstFails env masterKey := by
  have inv := (KeysOwned.closed walletKey).holds reachable
  have noCrypted := (inv.noCrypted unencrypted).1
  have noCryptedPqc := (inv.noCryptedPqc unencrypted).1
  refine ⟨fun inverts => ?_, fun writes => ?_⟩
  · rw [← encryptsAll_eq inverts inv.keys, ← encrypt_snd noCrypted noCryptedPqc]
    constructor
    · rintro ⟨w', done, -⟩
      rw [done]
    · intro done
      exact ⟨_, Prod.ext rfl done,
        encrypt_recovers inverts inv.keys noCrypted noCryptedPqc (Prod.ext rfl done)⟩
  · grind [encrypt_snd, encrypt_same_iff]

/-- A wallet whose post-quantum key is one of Dilithium is encrypted. -/
theorem encrypt_dilithiumWallet : (createdWallet false dilithiumConfig).hasEncryptionKeys = false ∧
    (createdWallet false dilithiumConfig).mMapPqcKeys.entries.length = 1 ∧
    ∃ w', encrypt plainEnv (fun _ => true) plainMasterKey (createdWallet false dilithiumConfig)
      = (w', true) ∧ Recovers plainEnv plainMasterKey (createdWallet false dilithiumConfig) w' :=
  ⟨by decide +kernel, by decide +kernel,
    ((encrypt_total_atomic_iff (.generated false dilithiumConfig rootKey_valid
      (created_eq false dilithiumConfig (by decide +kernel)))
      (by decide +kernel)).1 (plainCrypto_inverts plainMasterKey)).mpr (by decide +kernel)⟩

/-- A new wallet under the default configuration: `Encrypt` fails, and the private key that was
in the clear is gone from its map. -/
theorem encrypt_falconWallet_fails :
    Reachable plainEnv plainMasterKey plainCrypto.Valid (createdWallet false falconConfig) ∧
    (createdWallet false falconConfig).hasEncryptionKeys = false ∧
    plainCrypto.Inverts plainMasterKey ∧
    (encrypt plainEnv (fun _ => true) plainMasterKey (createdWallet false falconConfig)).2 = false ∧
    (createdWallet false falconConfig).mMapKeys.entries.length = 1 ∧
    (encrypt plainEnv (fun _ => true) plainMasterKey
      (createdWallet false falconConfig)).1.mMapKeys.entries = [] :=
  ⟨.generated false falconConfig rootKey_valid (created_eq false falconConfig (by decide +kernel)), by decide +kernel,
    plainCrypto_inverts plainMasterKey, by decide +kernel, by decide +kernel, by decide +kernel⟩

end SpkMan

end QuantBTC.Wallet
