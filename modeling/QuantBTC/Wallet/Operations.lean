/-
# Wallet.Operations -- what is done to a descriptor wallet

The operations on a `DescriptorScriptPubKeyMan` besides the top-up: handing out addresses,
loading the wallet file, encryption and unlocking, and how a manager is created.  `step`
runs one operation, and a wallet is in some state after any list of them.
-/
import QuantBTC.Wallet.SpkMan

namespace QuantBTC.Wallet

set_option autoImplicit false

open Primitives Script Theory.Loops

variable {Cache : Type} (env : WalletEnv Cache)

namespace SpkMan

/-! ## Addresses -/

section

variable (config : PQCConfig)

def canGetAddresses (w : SpkMan Cache) : Bool :=
  env.desc.isSingleType && env.desc.isRange &&
    (w.havePrivateKeys || decide (w.nextIndex < w.rangeEnd))

def keyHashOf (script : Bytes) : Option CKeyID :=
  match witnessProgram script with
  | some (0, program) => if program.length = 20 then some program else none
  | _ => none

def nextHybrid (w : SpkMan Cache) : Option (CPubKey × Bytes) :=
  if config.enableHybridSignatures then
    match keyHashOf ((env.desc.scripts w.nextIndex).headD []) with
    | none => none
    | some keyid =>
      match w.mMapPqcKeys.lookup keyid,
          (env.desc.pubkeys w.nextIndex).find? (env.crypto.getID · == keyid) with
      | some hybrid, some pubkey =>
        if hybrid.mPqcPublicKey = [] then none else some (pubkey, hybrid.mPqcPublicKey)
      | _, _ => none
  else none

def takeDestination (w : SpkMan Cache) : SpkMan Cache × Bytes :=
  match w.nextHybrid env config with
  | none => ({ w with nextIndex := w.nextIndex + 1 }.writeDescriptor,
      (env.desc.scripts w.nextIndex).headD [])
  | some (pubkey, pqcPub) =>
    ({ w.registerHybrid env pubkey pqcPub w.nextIndex with
       nextIndex := w.nextIndex + 1 }.writeDescriptor,
      payToKeyHash (hybridHash env pubkey pqcPub))

def topUpOne (w : SpkMan Cache) : Outcome Cache (SpkMan Cache × Bool) :=
  if w.rangeEnd < w.mCachedCount then w.topUp env config 1 else .ok (w, true)

def getNewDestination (w : SpkMan Cache) : Outcome Cache (SpkMan Cache × Option Bytes) :=
  if w.canGetAddresses env then do
    let (w, _) ← w.topUp env config 0
    let (w, ok) ← w.topUpOne env config
    if ok && env.desc.expandFromCache w.cache w.nextIndex then
      .ok ((w.takeDestination env config).1, some (w.takeDestination env config).2)
    else .ok (w, none)
  else .ok (w, none)

def returnDestination (index : Nat) (w : SpkMan Cache) : SpkMan Cache :=
  writeDescriptor (if w.nextIndex = index + 1 then { w with nextIndex := index } else w)

def markIndex (w : SpkMan Cache) (i : Nat) : SpkMan Cache × Bool :=
  if env.desc.expandFromCache w.cache i then ({ w with nextIndex := i + 1 }, true) else (w, false)

def markUnusedAddresses (script : Bytes) (w : SpkMan Cache) :
    Outcome Cache (SpkMan Cache × Bool) :=
  match w.mMapScriptPubKeys.lookup script with
  | none => .ok (w, true)
  | some index =>
    match loop (markIndex env) (List.range' w.nextIndex (index + 1 - w.nextIndex)) w with
    | (w, false) => .ok (w, false)
    | (w, true) => w.topUp env config 0

end

/-! ## Loading -/

def setCacheScript (i : Nat) (w : SpkMan Cache) (script : Bytes) : SpkMan Cache × Bool :=
  if script ∈ w.mMapScriptPubKeys then (w, false)
  else ({ w with mMapScriptPubKeys := w.mMapScriptPubKeys.insert script i }, true)

def setCachePubkey (i : Nat) (w : SpkMan Cache) (pubkey : CPubKey) : SpkMan Cache :=
  if pubkey ∈ w.mMapPubkeys then w else w.addPubkey pubkey i

def setCacheIndex (w : SpkMan Cache) (i : Nat) : SpkMan Cache × Bool :=
  if env.desc.expandFromCache w.cache i then
    match loop (setCacheScript i) (env.desc.scripts i) w with
    | (w, false) => (w, false)
    | (w, true) =>
      let w := (env.desc.pubkeys i).foldl (setCachePubkey i) w
      ({ w with mCachedCount := w.mCachedCount + 1 }, true)
  else (w, false)

def addKey (w : SpkMan Cache) (entry : (_ : CPubKey) × CKey) : SpkMan Cache :=
  { w with mMapKeys := w.mMapKeys.insert (env.crypto.getID entry.1) entry.2 }

def addCryptedKey (w : SpkMan Cache) (entry : (_ : CPubKey) × Bytes) : SpkMan Cache :=
  if w.mMapKeys.entries != [] then w
  else
    { w with
      mMapCryptedKeys :=
        w.mMapCryptedKeys.insert (env.crypto.getID entry.1) (entry.1, entry.2) }

def registerLoaded (keyid : CKeyID) (pqcPub : Bytes) (w : SpkMan Cache) : SpkMan Cache :=
  match w.mMapPubkeys.entries.find? fun entry => env.crypto.getID entry.1 == keyid with
  | none => w
  | some entry => w.registerHybrid env entry.1 pqcPub entry.2

def pqcKeyOfRecord (record : Bytes × Bytes) : HybridKey :=
  if record.2 = [] then (HybridKey.setPQCPublicKey {} record.1).1
  else (HybridKey.setPQCKey {} record.1 record.2).1

def addPQCKey (w : SpkMan Cache) (entry : (_ : CPubKey) × (Bytes × Bytes)) : SpkMan Cache :=
  let keyid := env.crypto.getID entry.1
  registerLoaded env keyid entry.2.1
    { w with
      mMapCryptedPqcKeys := w.mMapCryptedPqcKeys.erase keyid
      mMapPqcKeys := w.mMapPqcKeys.insert keyid (pqcKeyOfRecord entry.2) }

def addCryptedPQCKey (w : SpkMan Cache) (entry : (_ : CPubKey) × (Bytes × Bytes)) :
    SpkMan Cache :=
  let keyid := env.crypto.getID entry.1
  registerLoaded env keyid entry.2.1
    { w with
      mMapPqcKeys := w.mMapPqcKeys.erase keyid
      mMapCryptedPqcKeys := w.mMapCryptedPqcKeys.insert keyid entry.2 }

def loadKeys (w : SpkMan Cache) : SpkMan Cache :=
  let w := w.db.keys.entries.foldl (addKey env) w
  let w := w.db.cryptedKeys.entries.foldl (addCryptedKey env) w
  let w := w.db.pqcKeys.entries.foldl (addPQCKey env) w
  w.db.cryptedPqcKeys.entries.foldl (addCryptedPQCKey env) w

def load (db : WalletDB Cache) : Option (SpkMan Cache) :=
  match db.descriptor with
  | none => none
  | some (rangeStart, rangeEnd, nextIndex) =>
    match loop (setCacheIndex env) (List.range' rangeStart (rangeEnd - rangeStart))
        { rangeStart, rangeEnd, nextIndex, cache := db.cache
          hasEncryptionKeys := db.hasMasterKey, db } with
    | (_, false) => none
    | (w, true) => some (w.loadKeys env)

def reload (w : SpkMan Cache) (db : WalletDB Cache) : SpkMan Cache := (load env db).getD w

/-! ## Encryption -/

section

variable (writes : CPubKey → Bool) (masterKey : Bytes)

def encryptKey (w : SpkMan Cache) (entry : (_ : CKeyID) × CKey) : SpkMan Cache × Bool :=
  let pubkey := env.crypto.getPubKey entry.2
  match env.crypto.encryptSecret masterKey entry.2.keydata (env.crypto.getHash pubkey) with
  | none => (w, false)
  | some cryptedSecret =>
    ({ w with
       mMapCryptedKeys :=
         w.mMapCryptedKeys.insert (env.crypto.getID pubkey) (pubkey, cryptedSecret)
       db := if writes pubkey then w.db.writeCryptedKey pubkey cryptedSecret else w.db }, true)

def sealPqcKey (w : SpkMan Cache) (entry : (_ : CKeyID) × HybridKey) : Option (CPubKey × Bytes) := do
  let pqcPriv ← entry.2.getPQCPrivateKey
  let pubkey ← w.findPubkey env entry.1
  let crypted ← env.crypto.encryptSecret masterKey pqcPriv (env.crypto.getHash pubkey)
  some (pubkey, crypted)

def encryptPqcKey (w : SpkMan Cache) (entry : (_ : CKeyID) × HybridKey) : SpkMan Cache × Bool :=
  match w.sealPqcKey env masterKey entry with
  | none => (w, false)
  | some (pubkey, crypted) =>
    let pair := (entry.2.mPqcPublicKey, crypted)
    let w := { w with mMapCryptedPqcKeys := w.mMapCryptedPqcKeys.insert entry.1 pair }
    if writes pubkey then ({ w with db := w.db.writeCryptedPqcKey pubkey pair }, true)
    else (w, false)

def encrypt (w : SpkMan Cache) : SpkMan Cache × Bool :=
  if w.mMapCryptedKeys.entries != [] || w.mMapCryptedPqcKeys.entries != [] then (w, false)
  else
    match loop (encryptKey env writes masterKey) w.mMapKeys.entries w with
    | (w, false) => (w, false)
    | (w, true) =>
      match loop (encryptPqcKey env writes masterKey) w.mMapPqcKeys.entries
          { w with mMapKeys := ∅ } with
      | (w, false) => (w, false)
      | (w, true) => ({ w with mMapPqcKeys := ∅ }, true)

end

/-! ## Unlocking -/

section

variable (masterKey : Bytes)

def checkEntries {α : Type} (decrypts : α → Bool) (thorough : Bool) :
    List α → Bool → Bool × Bool
  | [], pass => (pass, false)
  | entry :: rest, pass =>
    if decrypts entry then
      if thorough then (true, false) else checkEntries decrypts thorough rest true
    else (pass, true)

def decryptsKey (entry : (_ : CKeyID) × (CPubKey × Bytes)) : Bool :=
  (env.crypto.decryptKey masterKey entry.2.2 entry.2.1).2

def decryptsPqcKey (w : SpkMan Cache) (entry : (_ : CKeyID) × (Bytes × Bytes)) : Bool :=
  match w.findPubkey env entry.1 with
  | none => false
  | some pubkey =>
    (env.crypto.decryptSecret masterKey entry.2.2 (env.crypto.getHash pubkey)).isSome

def migratePqcKey (w : SpkMan Cache) (entry : (_ : CKeyID) × HybridKey) : SpkMan Cache × Bool :=
  match w.sealPqcKey env masterKey entry with
  | none => (w, false)
  | some (pubkey, crypted) =>
    let pair := (entry.2.mPqcPublicKey, crypted)
    ({ w with
       mMapCryptedPqcKeys := w.mMapCryptedPqcKeys.insert entry.1 pair
       db := w.db.writeCryptedPqcKey pubkey pair }, true)

def migrate (w : SpkMan Cache) : SpkMan Cache × Bool :=
  if w.hasEncryptionKeys && w.mMapPqcKeys.entries != [] then
    match loop (migratePqcKey env masterKey) w.mMapPqcKeys.entries w with
    | (w, false) => (w, false)
    | (w, true) => ({ w with mMapPqcKeys := ∅ }, true)
  else (w, true)

def checkDecryptionKey (w : SpkMan Cache) : SpkMan Cache × Option Bool :=
  if w.mMapKeys.entries != [] then (w, some false)
  else
    let crypted := w.mMapCryptedKeys.entries
    let (keyPass, keyFail) :=
      checkEntries (decryptsKey env masterKey) w.mDecryptionThoroughlyChecked crypted (crypted == [])
    if keyPass && keyFail then (w, none)
    else if keyFail || !keyPass then (w, some false)
    else
      let cryptedPqc := w.mMapCryptedPqcKeys.entries
      let (pqcPass, pqcFail) :=
        checkEntries (w.decryptsPqcKey env masterKey) w.mDecryptionThoroughlyChecked cryptedPqc
          (cryptedPqc == [])
      if pqcFail || !pqcPass then (w, some false)
      else
        match w.migrate env masterKey with
        | (w, false) => (w, some false)
        | (w, true) => ({ w with mDecryptionThoroughlyChecked := true }, some true)

def lock (w : SpkMan Cache) : SpkMan Cache := { w with vMasterKey := [] }

def unlock (w : SpkMan Cache) : SpkMan Cache :=
  if w.hasEncryptionKeys then
    match w.checkDecryptionKey env masterKey with
    | (w, some true) => { w with vMasterKey := masterKey }
    | (w, _) => w
  else w

def encryptWallet (w : SpkMan Cache) : Outcome Cache (SpkMan Cache) :=
  if w.hasEncryptionKeys then .ok w
  else
    match encrypt env (fun _ => true) masterKey
        { w with hasEncryptionKeys := true, db := { w.db with hasMasterKey := true } } with
    | (_, false) => .error w.db
    | (w, true) => .ok (unlock env masterKey w.lock).lock

end

/-! ## Creation -/

def fresh (masterKey : Option Bytes) (range : Nat × Nat × Nat) : SpkMan Cache where
  rangeStart := range.1
  rangeEnd := range.2.1
  nextIndex := range.2.2
  cache := env.desc.noCache
  hasEncryptionKeys := masterKey.isSome
  vMasterKey := masterKey.getD []
  db := { cache := env.desc.noCache, hasMasterKey := masterKey.isSome }

def setupDescriptorGeneration (config : PQCConfig) (key : CKey) (w : SpkMan Cache) :
    Outcome Cache (SpkMan Cache) :=
  match w.addDescriptorKey env key with
  | (w, false) => .error w.db
  | (w, true) => (w.writeDescriptor.topUp env config 0).map (·.1)

def addWalletDescriptor (config : PQCConfig) (keys : List CKey) (w : SpkMan Cache) :
    Outcome Cache (SpkMan Cache) :=
  match loop (addDescriptorKey env) keys w with
  | (w, false) => .ok w
  | (w, true) =>
    match w.topUp env config 0 with
    | .error db => .error db
    | .ok (w, false) => .ok w
    | .ok (w, true) => .ok w.writeDescriptor

def updateWalletDescriptor (range : Nat × Nat × Nat) (w : SpkMan Cache) : SpkMan Cache :=
  { w with
    mMapPubkeys := ∅
    mMapScriptPubKeys := ∅
    mCachedCount := 0
    rangeStart := range.1
    rangeEnd := range.2.1
    nextIndex := range.2.2
    cache := env.desc.noCache }

def importAgain (config : PQCConfig) (keys : List CKey) (range : Nat × Nat × Nat)
    (w : SpkMan Cache) : Outcome Cache (SpkMan Cache) :=
  if w.isLocked ∨ w.rangeStart < range.1 ∨ range.2.1 < w.rangeEnd then .ok w
  else addWalletDescriptor env config keys (w.updateWalletDescriptor env range)

end SpkMan

/-! ## Runs -/

inductive Op where
  | topUp (config : PQCConfig) (size : Nat)
  | getNewDestination (config : PQCConfig)
  | returnDestination (index : Nat)
  | markUnusedAddresses (config : PQCConfig) (script : Bytes)
  | lock
  | unlock
  | encryptWallet
  | reload
  | importAgain (config : PQCConfig) (keys : List CKey) (range : Nat × Nat × Nat)
deriving DecidableEq, Repr

def SpkMan.attempt (masterKey : Bytes) (w : SpkMan Cache) :
    Op → SpkMan.Outcome Cache (SpkMan Cache)
  | .topUp config size => (w.topUp env config size).map (·.1)
  | .getNewDestination config => (w.getNewDestination env config).map (·.1)
  | .returnDestination index => .ok (w.returnDestination index)
  | .markUnusedAddresses config script => (w.markUnusedAddresses env config script).map (·.1)
  | .lock => .ok w.lock
  | .unlock => .ok (w.unlock env masterKey)
  | .encryptWallet => w.encryptWallet env masterKey
  | .reload => .ok (w.reload env w.db)
  | .importAgain config keys range => w.importAgain env config keys range

def SpkMan.step (masterKey : Bytes) (w : SpkMan Cache) (op : Op) : SpkMan Cache :=
  match w.attempt env masterKey op with
  | .ok w' => w'
  | .error db => w.reload env db

end QuantBTC.Wallet
