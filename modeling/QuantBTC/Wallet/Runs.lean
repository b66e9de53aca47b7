/-
# Wallet.Runs -- what holds in every state of a wallet

An invariant of a manager is kept by every operation when it is kept by the few changes the
operations are made of.  Handing out an address, for one, is top-ups and one entry of a
script, and a process that ends goes on from a file some earlier state has left.
-/
import QuantBTC.Wallet.Operations

namespace QuantBTC.Wallet

set_option autoImplicit false

open Primitives Script Theory.Loops

variable {Cache : Type} (env : WalletEnv Cache)

namespace SpkMan

def Keeps (Inv : SpkMan Cache → Prop) : Outcome Cache (SpkMan Cache) → Prop
  | .ok w' => Inv w'
  | .error db => ∃ w, Inv w ∧ w.db = db

theorem Keeps.mono {Inv Inv' : SpkMan Cache → Prop} (weaken : ∀ w, Inv w → Inv' w)
    {outcome : Outcome Cache (SpkMan Cache)} (kept : Keeps Inv outcome) : Keeps Inv' outcome := by
  cases outcome with
  | ok w' => exact weaken w' kept
  | error db =>
    obtain ⟨w, inv, left⟩ := kept
    exact ⟨w, weaken w inv, left⟩

/-! ## Operations on addresses -/

structure Addresses (config : PQCConfig) (Inv : SpkMan Cache → Prop) : Prop where
  topUp : ∀ {w w' : SpkMan Cache} {size : Nat} {ok : Bool}, Inv w →
    w.topUp env config size = .ok (w', ok) → Inv w'
  take : ∀ {w : SpkMan Cache}, Inv w → env.desc.expandFromCache w.cache w.nextIndex = true →
    Inv (w.takeDestination env config).1
  next : ∀ {w : SpkMan Cache} (index : Nat), Inv w → Inv { w with nextIndex := index }
  write : ∀ {w : SpkMan Cache}, Inv w → Inv w.writeDescriptor

variable {env} {config : PQCConfig} {Inv : SpkMan Cache → Prop} {w : SpkMan Cache}

variable {db : WalletDB Cache}

theorem topUp_error {size : Nat} (failed : w.topUp env config size = .error db) :
    db = w.db := by grind [topUp, Except.error.inj]

variable {w' : SpkMan Cache}

theorem topUp_keeps {size : Nat} {ok : Bool} (range : ∀ {w : SpkMan Cache} (rangeStart rangeEnd :
      Nat), Inv w → Inv { w with rangeStart, rangeEnd })
    (write : ∀ {w : SpkMan Cache}, Inv w → Inv w.writeDescriptor) (atom : ∀ {w₁ w₂ : SpkMan Cache},
      Atom env config (w.getKeys env) (w.newRangeEnd env config size) w₁ w₂ → Inv w₁ → Inv w₂)
    (topped : w.topUp env config size = .ok (w', ok)) (inv : Inv w) : Inv w' := by
  obtain ⟨last, atoms, result⟩ := topUp_atoms topped
  have fixed : Inv (w.fixRange env) := by
    unfold fixRange
    split
    · exact inv
    · exact range 0 1 inv
  have lastInv : Inv last := by
    clear result
    induction atoms with
    | refl => exact fixed
    | tail _ change ih => exact atom change ih
  rcases result with ⟨-, rfl⟩ | ⟨-, -, rfl⟩
  · exact lastInv
  · exact write (range last.rangeStart _ lastInv)

theorem takeDestination_frame (w : SpkMan Cache) : ∃ scripts,
    (w.takeDestination env config).1 =
      { w with mMapScriptPubKeys := scripts, nextIndex := w.nextIndex + 1 }.writeDescriptor := by
  unfold takeDestination
  split <;> exact ⟨_, rfl⟩

namespace Addresses

variable (closed : Addresses env config Inv)
include closed

theorem keeps_topUp (size : Nat) (inv : Inv w) :
    Keeps Inv ((w.topUp env config size).map (·.1)) := by
  cases topped : w.topUp env config size with
  | error db => exact ⟨w, inv, (topUp_error topped).symm⟩
  | ok result => exact closed.topUp inv topped

theorem keeps_topUpOne (inv : Inv w) : Keeps Inv ((w.topUpOne env config).map (·.1)) := by
  unfold topUpOne
  split
  · exact closed.keeps_topUp 1 inv
  · exact inv

theorem keeps_getNewDestination (inv : Inv w) :
    Keeps Inv ((w.getNewDestination env config).map (·.1)) := by
  unfold getNewDestination
  split
  · have first := closed.keeps_topUp 0 inv
    cases topped : w.topUp env config 0 with
    | error db =>
      rw [topped] at first
      exact first
    | ok result =>
      rw [topped] at first
      have second := closed.keeps_topUpOne first
      show Keeps Inv (Except.map _ (result.1.topUpOne env config >>= _))
      cases toppedOne : result.1.topUpOne env config with
      | error db =>
        rw [toppedOne] at second
        exact second
      | ok result' =>
        rw [toppedOne] at second
        show Keeps Inv (Except.map _ (if _ then _ else _))
        split
        next cached =>
          exact closed.take second (Bool.and_eq_true_iff.mp cached).2
        · exact second
  · exact inv

theorem keeps_returnDestination (index : Nat) (inv : Inv w) : Inv (w.returnDestination index) := by
  unfold returnDestination
  split
  · exact closed.write (closed.next index inv)
  · exact closed.write inv

theorem keeps_markUnusedAddresses (script : Bytes) (inv : Inv w) :
    Keeps Inv ((w.markUnusedAddresses env config script).map (·.1)) := by
  unfold markUnusedAddresses
  split
  · exact inv
  next index _ =>
    have marked : Inv (loop (markIndex env)
        (List.range' w.nextIndex (index + 1 - w.nextIndex)) w).1 := by
      refine loop_invariant Inv ?_ inv
      intro w' i _ inv
      unfold markIndex
      split
      · exact closed.next (i + 1) inv
      · exact inv
    split
    next failed =>
      rw [failed] at marked
      exact marked
    next done =>
      rw [done] at marked
      exact closed.keeps_topUp 0 marked

end Addresses

/-! ## Loading -/

theorem setCacheIndex_frame (w : SpkMan Cache) (i : Nat) : ∃ scripts pubkeys count,
    (setCacheIndex env w i).1 =
      { w with mMapScriptPubKeys := scripts, mMapPubkeys := pubkeys, mCachedCount := count } := by
  have entered : ∃ scripts, (loop (setCacheScript i) (env.desc.scripts i) w).1
      = { w with mMapScriptPubKeys := scripts } := by
    refine loop_invariant (fun w' => ∃ scripts, w' = { w with mMapScriptPubKeys := scripts }) ?_
      ⟨w.mMapScriptPubKeys, rfl⟩
    grind [setCacheScript]
  have listed (w : SpkMan Cache) : ∃ pubkeys,
      (env.desc.pubkeys i).foldl (setCachePubkey i) w = { w with mMapPubkeys := pubkeys } := by
    refine List.foldlRecOn (motive := fun w' : SpkMan Cache => ∃ pubkeys, w' = { w with mMapPubkeys := pubkeys })
      _ _ ⟨w.mMapPubkeys, rfl⟩ ?_
    rintro _ ⟨pubkeys, rfl⟩ pubkey -
    unfold setCachePubkey
    split
    · exact ⟨pubkeys, rfl⟩
    · exact ⟨_, rfl⟩
  obtain ⟨scripts, entered⟩ := entered
  unfold setCacheIndex
  split
  · split
    · grind
    next done =>
      rw [done] at entered
      obtain ⟨pubkeys, listed⟩ := listed { w with mMapScriptPubKeys := scripts }
      subst entered
      exact ⟨scripts, pubkeys, w.mCachedCount + 1, by rw [listed]⟩
  · exact ⟨w.mMapScriptPubKeys, w.mMapPubkeys, w.mCachedCount, rfl⟩

theorem addCryptedKey_frame (w : SpkMan Cache) (entry : (_ : CPubKey) × Bytes) : ∃ crypted,
    w.addCryptedKey env entry = { w with mMapCryptedKeys := crypted } := by
  unfold addCryptedKey
  split
  · exact ⟨w.mMapCryptedKeys, rfl⟩
  · exact ⟨_, rfl⟩

theorem registerLoaded_frame (keyid : CKeyID) (pqcPub : Bytes) (w : SpkMan Cache) : ∃ scripts,
    registerLoaded env keyid pqcPub w = { w with mMapScriptPubKeys := scripts } := by
  unfold registerLoaded
  split
  · exact ⟨w.mMapScriptPubKeys, rfl⟩
  · exact ⟨_, rfl⟩

theorem addPQCKey_frame (w : SpkMan Cache) (entry : (_ : CPubKey) × (Bytes × Bytes)) :
    ∃ scripts, w.addPQCKey env entry =
      { w with
        mMapScriptPubKeys := scripts
        mMapCryptedPqcKeys := w.mMapCryptedPqcKeys.erase (env.crypto.getID entry.1)
        mMapPqcKeys :=
          w.mMapPqcKeys.insert (env.crypto.getID entry.1) (pqcKeyOfRecord entry.2) } :=
  registerLoaded_frame _ _ _

theorem addCryptedPQCKey_frame (w : SpkMan Cache) (entry : (_ : CPubKey) × (Bytes × Bytes)) :
    ∃ scripts, w.addCryptedPQCKey env entry =
      { w with
        mMapScriptPubKeys := scripts
        mMapPqcKeys := w.mMapPqcKeys.erase (env.crypto.getID entry.1)
        mMapCryptedPqcKeys :=
          w.mMapCryptedPqcKeys.insert (env.crypto.getID entry.1) entry.2 } :=
  registerLoaded_frame _ _ _

def empty (db : WalletDB Cache) (range : Nat × Nat × Nat) : SpkMan Cache where
  rangeStart := range.1
  rangeEnd := range.2.1
  nextIndex := range.2.2
  cache := db.cache
  hasEncryptionKeys := db.hasMasterKey
  db

theorem setCache_frame (indices : List Nat) (w : SpkMan Cache) : ∃ scripts pubkeys count,
    (loop (setCacheIndex env) indices w).1 =
      { w with mMapScriptPubKeys := scripts, mMapPubkeys := pubkeys, mCachedCount := count } := by
  refine loop_invariant (fun w' : SpkMan Cache => ∃ scripts pubkeys count, w' =
    { w with mMapScriptPubKeys := scripts, mMapPubkeys := pubkeys, mCachedCount := count }) ?_
    ⟨w.mMapScriptPubKeys, w.mMapPubkeys, w.mCachedCount, rfl⟩
  rintro _ i - ⟨scripts, pubkeys, count, rfl⟩
  exact setCacheIndex_frame { w with
    mMapScriptPubKeys := scripts, mMapPubkeys := pubkeys, mCachedCount := count } i

variable {pubkey : CPubKey}

theorem mem_setCachePubkeys {i : Nat} (pubkeys : List CPubKey) (w : SpkMan Cache) :
    pubkey ∈ (pubkeys.foldl (setCachePubkey i) w).mMapPubkeys ↔
      pubkey ∈ w.mMapPubkeys ∨ pubkey ∈ pubkeys := by
  induction pubkeys generalizing w with
  | nil => simp
  | cons first rest ih =>
    grind [List.foldl_cons, setCachePubkey, List.mem_cons, addPubkey, AList.mem_insert]

theorem mem_setCacheIndex {i : Nat} (ok : (setCacheIndex env w i).2 = true) :
    pubkey ∈ (setCacheIndex env w i).1.mMapPubkeys ↔
      pubkey ∈ w.mMapPubkeys ∨ pubkey ∈ env.desc.pubkeys i := by
  have entered : (loop (setCacheScript i) (env.desc.scripts i) w).1.mMapPubkeys = w.mMapPubkeys := by
    refine loop_invariant (fun w' : SpkMan Cache => w'.mMapPubkeys = w.mMapPubkeys) ?_ rfl
    intro w' script _ same
    unfold setCacheScript
    split <;> exact same
  grind [setCacheIndex, mem_setCachePubkeys]

theorem mem_setCache {indices : List Nat} {cached : SpkMan Cache}
    (done : loop (setCacheIndex env) indices w = (cached, true)) :
    pubkey ∈ cached.mMapPubkeys ↔
      pubkey ∈ w.mMapPubkeys ∨ ∃ i ∈ indices, pubkey ∈ env.desc.pubkeys i := by
  induction indices generalizing w with
  | nil =>
    cases done
    simp
  | cons i rest ih =>
    cases ok : (setCacheIndex env w i).2 with
    | false =>
      simp [loop_cons_of_fail ok] at done
    | true =>
      rw [loop_cons_of_ok ok] at done
      rw [ih done, mem_setCacheIndex ok, List.exists_mem_cons_iff, or_assoc]

theorem load_eq_some (loaded : load env db = some w') :
    ∃ range cached, db.descriptor = some range ∧
      loop (setCacheIndex env) (List.range' range.1 (range.2.1 - range.1)) (empty db range)
        = (cached, true) ∧
      w' = db.cryptedPqcKeys.entries.foldl (addCryptedPQCKey env)
        (db.pqcKeys.entries.foldl (addPQCKey env)
          (db.cryptedKeys.entries.foldl (addCryptedKey env)
            (db.keys.entries.foldl (addKey env) cached))) := by
  have foldDb {α : Type} (add : SpkMan Cache → α → SpkMan Cache)
      (same : ∀ w entry, (add w entry).db = w.db) (entries : List α) (w : SpkMan Cache) :
      (entries.foldl add w).db = w.db :=
    List.foldlRecOn (motive := fun w' : SpkMan Cache => w'.db = w.db) entries add rfl
      fun w' kept entry _ => (same w' entry).trans kept
  unfold load at loaded
  split at loaded
  · cases loaded
  next rangeStart rangeEnd nextIndex range =>
    split at loaded
    · cases loaded
    next cached done =>
      refine ⟨_, cached, range, done, ?_⟩
      obtain ⟨scripts, pubkeys, count, frame⟩ := @setCache_frame _ env
        (List.range' rangeStart (rangeEnd - rangeStart))
        (empty db (rangeStart, rangeEnd, nextIndex))
      have cachedDb : cached.db = db :=
        (congrArg (·.1.db) done).symm.trans (congrArg SpkMan.db frame)
      have pqcDb (w : SpkMan Cache) (entry : (_ : CPubKey) × (Bytes × Bytes)) :
          (w.addPQCKey env entry).db = w.db := by
        obtain ⟨scripts, frame⟩ := @addPQCKey_frame _ env w entry
        rw [frame]
      have cryptedDb (w : SpkMan Cache) (entry : (_ : CPubKey) × Bytes) :
          (w.addCryptedKey env entry).db = w.db := by
        obtain ⟨crypted, frame⟩ := @addCryptedKey_frame _ env w entry
        rw [frame]
      rw [← Option.some.inj loaded, loadKeys]
      simp only [foldDb _ pqcDb, foldDb _ cryptedDb, foldDb (addKey env) fun _ _ => rfl, cachedDb]

theorem load_keeps (Inv : SpkMan Cache → Prop)
    (start : ∀ range, db.descriptor = some range → Inv (empty db range)) (index : ∀ {w : SpkMan
      Cache} (i : Nat), Inv w → (setCacheIndex env w i).2 = true → Inv (setCacheIndex env w i).1)
    (key : ∀ {w : SpkMan Cache}, ∀ entry ∈ db.keys.entries, Inv w → Inv (w.addKey env entry))
      (crypted : ∀ {w : SpkMan Cache}, ∀ entry ∈ db.cryptedKeys.entries, Inv w → Inv
      (w.addCryptedKey env entry)) (pqcKey : ∀ {w : SpkMan Cache}, ∀ entry ∈ db.pqcKeys.entries, Inv
      w → Inv (w.addPQCKey env entry)) (cryptedPqc : ∀ {w : SpkMan Cache}, ∀ entry ∈
      db.cryptedPqcKeys.entries, Inv w → Inv (w.addCryptedPQCKey env entry))
    (loaded : load env db = some w') : Inv w' := by
  obtain ⟨range, cached, written, done, rfl⟩ := load_eq_some loaded
  have cachedInv : Inv cached := by
    have kept := @loop_invariant_of_success _ _ (setCacheIndex env) _ _ Inv
      (fun _ i _ inv ok => index i inv ok) (start range written) (by rw [done])
    rwa [done] at kept
  refine List.foldlRecOn _ _ ?_ fun w inv entry listed => cryptedPqc entry listed inv
  refine List.foldlRecOn _ _ ?_ fun w inv entry listed => pqcKey entry listed inv
  refine List.foldlRecOn _ _ ?_ fun w inv entry listed => crypted entry listed inv
  exact List.foldlRecOn _ _ cachedInv fun w inv entry listed => key entry listed inv

/-! ## Unlocking -/

variable (masterKey : Bytes)

theorem migrate_frame (w : SpkMan Cache) :
    ∃ pqcKeys cryptedPqc dbPqc dbCryptedPqc, (w.migrate env masterKey).1 =
      { w with
        mMapPqcKeys := pqcKeys, mMapCryptedPqcKeys := cryptedPqc
        db := { w.db with pqcKeys := dbPqc, cryptedPqcKeys := dbCryptedPqc } } := by
  have looped : ∃ cryptedPqc dbPqc dbCryptedPqc,
      (loop (migratePqcKey env masterKey) w.mMapPqcKeys.entries w).1 =
        { w with
          mMapCryptedPqcKeys := cryptedPqc
          db := { w.db with pqcKeys := dbPqc, cryptedPqcKeys := dbCryptedPqc } } := by
    refine loop_invariant (fun w' : SpkMan Cache => ∃ cryptedPqc dbPqc dbCryptedPqc, w' =
      { w with
        mMapCryptedPqcKeys := cryptedPqc
        db := { w.db with pqcKeys := dbPqc, cryptedPqcKeys := dbCryptedPqc } }) ?_
      ⟨w.mMapCryptedPqcKeys, w.db.pqcKeys, w.db.cryptedPqcKeys, rfl⟩
    rintro _ entry - ⟨cryptedPqc, dbPqc, dbCryptedPqc, rfl⟩
    unfold migratePqcKey
    split <;> exact ⟨_, _, _, rfl⟩
  obtain ⟨cryptedPqc, dbPqc, dbCryptedPqc, looped⟩ := looped
  unfold migrate
  split
  all_goals grind

theorem checkDecryptionKey_frame (w : SpkMan Cache) :
    ∃ checked, (w.checkDecryptionKey env masterKey).1 = w ∨
      (w.checkDecryptionKey env masterKey).1 =
        { (w.migrate env masterKey).1 with mDecryptionThoroughlyChecked := checked } := by
  unfold checkDecryptionKey
  split
  · exact ⟨true, .inl rfl⟩
  · dsimp only
    split
    · exact ⟨true, .inl rfl⟩
    · split
      · exact ⟨true, .inl rfl⟩
      · split
        · exact ⟨true, .inl rfl⟩
        · split
          next failed =>
            rw [failed]
            exact ⟨_, .inr rfl⟩
          next done =>
            rw [done]
            exact ⟨true, .inr rfl⟩

theorem unlock_cases (w : SpkMan Cache) :
    ∃ checked vMasterKey,
      w.unlock env masterKey = { w with mDecryptionThoroughlyChecked := checked, vMasterKey } ∨
      w.unlock env masterKey =
        { (w.migrate env masterKey).1 with mDecryptionThoroughlyChecked := checked, vMasterKey } := by
  obtain ⟨checked, frame⟩ := @checkDecryptionKey_frame _ env masterKey w
  unfold unlock
  split
  · split
    · grind
    next failed =>
      rw [failed] at frame
      obtain rfl | rfl := frame
      · exact ⟨_, _, .inl rfl⟩
      · exact ⟨_, _, .inr rfl⟩
  · exact ⟨_, _, .inl rfl⟩

end SpkMan

/-! ## Reachable states -/

variable {env}

def Op.keys : Op → List CKey
  | .importAgain _ keys _ => keys
  | _ => []

variable (env) in
inductive Reachable (masterKey : Bytes) (Keys : CKey → Prop) : SpkMan Cache → Prop where
  | generated {w : SpkMan Cache} (encrypted : Bool) (config : PQCConfig) {key : CKey}
      (own : Keys key)
      (created : (SpkMan.fresh env (bif encrypted then some masterKey else none) (0, 0, 0)
        ).setupDescriptorGeneration env config key = .ok w) :
      Reachable masterKey Keys w
  | imported {w : SpkMan Cache} (encrypted : Bool) (config : PQCConfig) {keys : List CKey}
      (range : Nat × Nat × Nat) (own : ∀ key ∈ keys, Keys key)
      (created : (SpkMan.fresh env (bif encrypted then some masterKey else none) range
        ).addWalletDescriptor env config keys = .ok w) :
      Reachable masterKey Keys w
  | step {w : SpkMan Cache} (op : Op) (own : ∀ key ∈ op.keys, Keys key)
      (before : Reachable masterKey Keys w) :
      Reachable masterKey Keys (w.step env masterKey op)

namespace SpkMan

variable (env) in
structure Closed (masterKey : Bytes) (Keys : CKey → Prop) (Inv : SpkMan Cache → Prop) : Prop where
  addresses : ∀ config, Addresses env config Inv
  fresh : ∀ (encrypted : Bool) (range : Nat × Nat × Nat),
    Inv (fresh env (bif encrypted then some masterKey else none) range)
  addKey : ∀ {w : SpkMan Cache} {key : CKey}, Keys key → Inv w → Inv (w.addDescriptorKey env key).1
  update : ∀ {w : SpkMan Cache} (range : Nat × Nat × Nat), Inv w →
    Inv (w.updateWalletDescriptor env range)
  lock : ∀ {w : SpkMan Cache}, Inv w → Inv w.lock
  unlock : ∀ {w : SpkMan Cache}, Inv w → Inv (w.unlock env masterKey)
  encryptWallet : ∀ {w w' : SpkMan Cache}, Inv w → w.encryptWallet env masterKey = .ok w' → Inv w'
  load : ∀ {w w' : SpkMan Cache}, Inv w → load env w.db = some w' → Inv w'

namespace Closed

variable {masterKey : Bytes} {Keys : CKey → Prop} {Inv : SpkMan Cache → Prop} {w w' : SpkMan Cache}
variable (closed : Closed env masterKey Keys Inv)
include closed

theorem keeps_setup (config : PQCConfig) {key : CKey} (own : Keys key) (inv : Inv w) :
    Keeps Inv (w.setupDescriptorGeneration env config key) := by
  have added := closed.addKey own inv
  unfold setupDescriptorGeneration
  split
  next failed => exact ⟨_, added, by rw [failed]⟩
  next done =>
    rw [done] at added
    exact (closed.addresses config).keeps_topUp 0 ((closed.addresses config).write added)

theorem keeps_addWalletDescriptor (config : PQCConfig) {keys : List CKey}
    (own : ∀ key ∈ keys, Keys key) (inv : Inv w) :
    Keeps Inv (w.addWalletDescriptor env config keys) := by
  have added : Inv (loop (addDescriptorKey env) keys w).1 :=
    loop_invariant Inv (fun _ key listed => closed.addKey (own key listed)) inv
  unfold addWalletDescriptor
  split
  next failed =>
    rw [failed] at added
    exact added
  next done =>
    rw [done] at added
    have topped := (closed.addresses config).keeps_topUp 0 added
    split
    next failed =>
      rw [failed] at topped
      exact topped
    next failed =>
      rw [failed] at topped
      exact topped
    next finished =>
      rw [finished] at topped
      exact (closed.addresses config).write topped

theorem keeps_importAgain {config : PQCConfig} {keys : List CKey} (range : Nat × Nat × Nat)
    (own : ∀ key ∈ keys, Keys key) (inv : Inv w) :
    Keeps Inv (w.importAgain env config keys range) := by
  unfold importAgain
  split
  · exact inv
  · exact closed.keeps_addWalletDescriptor config own (closed.update range inv)

theorem keeps_encryptWallet (inv : Inv w) : Keeps Inv (w.encryptWallet env masterKey) := by
  cases done : w.encryptWallet env masterKey with
  | ok w' => exact closed.encryptWallet inv done
  | error db =>
    refine ⟨w, inv, ?_⟩
    grind [SpkMan.encryptWallet, Except.error.inj]

theorem keeps_reload (inv : Inv w) (left : Inv w') : Inv (w.reload env w'.db) := by
  unfold reload
  cases loaded : SpkMan.load env w'.db with
  | none => exact inv
  | some w'' => exact closed.load left loaded

theorem keeps_attempt (op : Op) (own : ∀ key ∈ op.keys, Keys key) (inv : Inv w) :
    Keeps Inv (w.attempt env masterKey op) := by
  cases op with
  | topUp config size => exact (closed.addresses config).keeps_topUp size inv
  | getNewDestination config => exact (closed.addresses config).keeps_getNewDestination inv
  | returnDestination index =>
    -- the configuration is not looked at
    exact (closed.addresses ⟨false, .falcon⟩).keeps_returnDestination index inv
  | markUnusedAddresses config script =>
    exact (closed.addresses config).keeps_markUnusedAddresses script inv
  | lock => exact closed.lock inv
  | unlock => exact closed.unlock inv
  | encryptWallet => exact closed.keeps_encryptWallet inv
  | reload => exact closed.keeps_reload inv inv
  | importAgain config keys range => exact closed.keeps_importAgain range own inv

theorem step (op : Op) (own : ∀ key ∈ op.keys, Keys key) (inv : Inv w) :
    Inv (w.step env masterKey op) := by
  have kept := closed.keeps_attempt op own inv
  unfold SpkMan.step
  split
  next done => rwa [done] at kept
  next failed =>
    rw [failed] at kept
    obtain ⟨left, leftInv, rfl⟩ := kept
    exact closed.keeps_reload inv leftInv

theorem holds (reachable : Reachable env masterKey Keys w) : Inv w := by
  induction reachable with
  | generated encrypted config own created =>
    have kept := closed.keeps_setup config own (closed.fresh encrypted (0, 0, 0))
    rwa [created] at kept
  | imported encrypted config range own created =>
    have kept := closed.keeps_addWalletDescriptor config own
      (closed.fresh encrypted range)
    rwa [created] at kept
  | step op own _ ih => exact closed.step op own ih

end Closed

end SpkMan

/-! ## A wallet to evaluate with -/

def plainPubKey (key : CKey) : CPubKey :=
  ⟨0x02 :: (List.range 32).map fun i => key.keydata.getD i 0, by simp [pubKeyValidSize]; decide⟩

def plainCrypto : KeyCrypto where
  hashes := digitHashes
  check _ := true
  getPubKey := plainPubKey
  verifyPubKey key pubkey := plainPubKey key == pubkey
  encryptSecret masterKey secret _ := some (masterKey ++ secret)
  decryptSecret masterKey text _ :=
    if text.take masterKey.length = masterKey then some (text.drop masterKey.length) else none
  dilithiumDeriveKeyPair seed := some ((seed ++ List.replicate 1312 1).take 1312, 7 :: seed)
  falconDeriveKeyPair seed := some ((seed ++ List.replicate 897 2).take 897, 8 :: seed)

def rootKey : CKey := ⟨List.replicate 32 9, true⟩

def childKey (i : Nat) : CKey := ⟨UInt8.ofNat (i % 4) :: List.replicate 31 9, true⟩

def plainDescriptor (has : Nat → Bool) : Descriptor Bool where
  id := 1
  isRange := true
  isSingleType := true
  scripts i := [payToKeyHash (plainCrypto.getID (plainPubKey (childKey i)))]
  pubkeys i := [plainPubKey (childKey i)]
  expandFromCache cache i := cache && has i
  expand keys i :=
    if plainCrypto.getID (plainPubKey rootKey) ∈ keys ∧ has i then some true else none
  noCache := false
  merge := or
  expandPrivate keys i :=
    if plainCrypto.getID (plainPubKey rootKey) ∈ keys then
      AList.singleton (plainCrypto.getID (plainPubKey (childKey i))) (childKey i)
    else ∅
  expandPrivate_empty _ := if_neg (AList.notMem_empty _)
  expandFromCache_merge cache items i known := by
    simp only [Bool.and_eq_true] at known ⊢
    exact ⟨by simp [known.1], known.2⟩
  expandFromCache_expand cache keys items i expanded := by grind

theorem plainDescriptor_expand {has : Nat → Bool} {keys : KeyMap} {i : Nat}
    (root : plainCrypto.getID (plainPubKey rootKey) ∈ keys) (index : has i = true) :
    (plainDescriptor has).expand keys i = some true := by
  show (if plainCrypto.getID (plainPubKey rootKey) ∈ keys ∧ has i then some true else none)
    = some true
  rw [if_pos ⟨root, index⟩]

def plainEnv : WalletEnv Bool where
  crypto := plainCrypto
  desc := plainDescriptor fun _ => true
  mKeypoolSize := 1

theorem plainCrypto_inverts (masterKey : Bytes) : plainCrypto.Inverts masterKey := by
  intro secret _ iv
  refine ⟨masterKey ++ secret, rfl, ?_⟩
  show (if (masterKey ++ secret).take masterKey.length = masterKey then
    some ((masterKey ++ secret).drop masterKey.length) else none) = some secret
  simp

def falconConfig : PQCConfig := ⟨true, .falcon⟩

def dilithiumConfig : PQCConfig := ⟨true, .sphincsPlus⟩

def plainMasterKey : Bytes := List.replicate 32 5

def createdWallet (encrypted : Bool) (config : PQCConfig) : SpkMan Bool :=
  ((SpkMan.fresh plainEnv (bif encrypted then some plainMasterKey else none) (0, 0, 0)
    ).setupDescriptorGeneration plainEnv config rootKey).toOption.getD
      (SpkMan.fresh plainEnv none (0, 0, 0))

theorem rootKey_valid : plainCrypto.Valid rootKey := by
  constructor <;> decide

theorem eq_ok_of_toBool {ε α : Type} {outcome : Except ε α} (ok : outcome.toBool = true)
    (default : α) : outcome = .ok (outcome.toOption.getD default) := by
  cases outcome with
  | error _ => cases ok
  | ok _ => rfl

theorem created_eq (encrypted : Bool) (config : PQCConfig)
    (created : ((SpkMan.fresh plainEnv (bif encrypted then some plainMasterKey else none) (0, 0, 0)
      ).setupDescriptorGeneration plainEnv config rootKey).toBool = true) :
    (SpkMan.fresh plainEnv (bif encrypted then some plainMasterKey else none) (0, 0, 0)
      ).setupDescriptorGeneration plainEnv config rootKey = .ok (createdWallet encrypted config) :=
  eq_ok_of_toBool created _

end QuantBTC.Wallet
