/-
# Wallet.SigningProvider -- `DescriptorScriptPubKeyMan::GetSigningProvider`

The keys a wallet signs with for one index.  Public keys and post-quantum keys are listed under
the id of the ECDSA key and under the hash of a hybrid address.  A post-quantum key comes from
the keys in the clear, where one without a private half is a Falcon key and derived again, or it
is decrypted.

The scripts inside a descriptor are left out: a P2WPKH descriptor has none.
-/
import QuantBTC.Theory.Maps
import QuantBTC.Wallet.Operations
import QuantBTC.Wallet.Sign

namespace QuantBTC.Wallet

set_option autoImplicit false

open Primitives Script Theory.Maps

variable {Cache : Type} (env : WalletEnv Cache)

namespace SpkMan

/-! ## The provider -/

def hybridKeyid (pubkeys : StdMap CKeyID CPubKey) (keyid : CKeyID) (pqcPub : Bytes) :
    Option CKeyID :=
  match pubkeys.lookup keyid with
  | none => none
  | some pubkey => if pqcPub = [] then none else some (hybridHash env pubkey pqcPub)

def addHybridPubkeyIndex (keyid : CKeyID) (pqcPub : Bytes) (pubkeys : StdMap CKeyID CPubKey) :
    StdMap CKeyID CPubKey :=
  match pubkeys.lookup keyid with
  | none => pubkeys
  | some pubkey =>
    if pqcPub = [] then pubkeys else pubkeys.insert (hybridHash env pubkey pqcPub) pubkey

def expandedPubkeys (index : Nat) : StdMap CKeyID CPubKey :=
  (env.desc.pubkeys index).foldl
    (fun pubkeys pubkey => pubkeys.insert (env.crypto.getID pubkey) pubkey) ∅

def providerPubkeys (index : Nat) (w : SpkMan Cache) : StdMap CKeyID CPubKey :=
  w.mMapCryptedPqcKeys.entries.foldl
    (fun pubkeys entry => addHybridPubkeyIndex env entry.1 entry.2.1 pubkeys)
    (w.mMapPqcKeys.entries.foldl
      (fun pubkeys entry => addHybridPubkeyIndex env entry.1 entry.2.mPqcPublicKey pubkeys)
      (expandedPubkeys env index))

def listPqcKey (pubkeys : StdMap CKeyID CPubKey) (keyid : CKeyID) (hybrid : HybridKey)
    (pqcKeys : StdMap CKeyID HybridKey) : StdMap CKeyID HybridKey :=
  match hybridKeyid env pubkeys keyid hybrid.mPqcPublicKey with
  | none => pqcKeys.insert keyid hybrid
  | some hybridId => (pqcKeys.insert keyid hybrid).insert hybridId hybrid

section

variable (index : Nat) (pubkeys : StdMap CKeyID CPubKey) (keys : KeyMap) (w : SpkMan Cache)

def fullPqcKey (entry : (_ : CKeyID) × HybridKey) : Option HybridKey := do
  let ecdsaKey ← keys.lookup entry.1
  if entry.2.hasPQCPrivateKey then some entry.2
  else
    let pubkey ← pubkeys.lookup entry.1
    let (pqcPub, pqcPriv) ← env.crypto.deriveFalcon ecdsaKey env.desc.id index pubkey
    some (HybridKey.setPQCKey {} pqcPub pqcPriv).1

def decryptedPqcKey (entry : (_ : CKeyID) × (Bytes × Bytes)) : Option HybridKey := do
  let _ ← keys.lookup entry.1
  let pubkey ← pubkeys.lookup entry.1
  let pqcPriv ← env.crypto.decryptSecret w.vMasterKey entry.2.2 (env.crypto.getHash pubkey)
  match HybridKey.setPQCKey {} entry.2.1 pqcPriv with
  | (hybrid, true) => some hybrid
  | (_, false) => none

def providePqcKey {ν : Type} (full : (_ : CKeyID) × ν → Option HybridKey)
    (pqcKeys : StdMap CKeyID HybridKey) (entry : (_ : CKeyID) × ν) : StdMap CKeyID HybridKey :=
  match full entry with
  | none => pqcKeys
  | some hybrid => listPqcKey env pubkeys entry.1 hybrid pqcKeys

def providerPqcKeys : StdMap CKeyID HybridKey :=
  w.mMapCryptedPqcKeys.entries.foldl
    (providePqcKey env pubkeys (w.decryptedPqcKey env pubkeys keys))
    (w.mMapPqcKeys.entries.foldl (providePqcKey env pubkeys (fullPqcKey env index pubkeys keys)) ∅)

end

def signingProviderAt (index : Nat) (includePrivate : Bool) (w : SpkMan Cache) :
    Option FlatSigningProvider :=
  if env.desc.expandFromCache w.cache index then
    let pubkeys := w.providerPubkeys env index
    let origins := (env.desc.pubkeys index).map env.crypto.getID
    if w.havePrivateKeys && includePrivate then
      let keys := env.desc.expandPrivate (w.getKeys env) index
      some { pubkeys, origins, keys, pqcKeys := w.providerPqcKeys env index pubkeys keys }
    else some { pubkeys, origins }
  else none

def getSigningProvider (script : Bytes) (includePrivate : Bool) (w : SpkMan Cache) :
    Option FlatSigningProvider :=
  match w.mMapScriptPubKeys.lookup script with
  | none => none
  | some index => w.signingProviderAt env index includePrivate

/-! ## An index with a single key -/

variable {env} {index : Nat} {pubkey : CPubKey} {key : CKey} {w : SpkMan Cache}

variable (env pubkey) in
def ListsOnly (pubkeys : StdMap CKeyID CPubKey) : Prop :=
  AllEntries (fun _ listed => listed = pubkey) pubkeys ∧
    pubkeys.lookup (env.crypto.getID pubkey) = some pubkey

theorem ListsOnly.insert {pubkeys : StdMap CKeyID CPubKey} (only : ListsOnly env pubkey pubkeys)
    (id : CKeyID) : ListsOnly env pubkey (pubkeys.insert id pubkey) := by
  refine ⟨only.1.insert rfl, ?_⟩
  by_cases same : env.crypto.getID pubkey = id
  · rw [same, AList.lookup_insert]
  · rw [AList.lookup_insert_ne same, only.2]

theorem ListsOnly.addHybridPubkeyIndex {pubkeys : StdMap CKeyID CPubKey}
    (only : ListsOnly env pubkey pubkeys) (keyid : CKeyID) (pqcPub : Bytes) :
    addHybridPubkeyIndex env keyid pqcPub pubkeys = pubkeys ∨
      addHybridPubkeyIndex env keyid pqcPub pubkeys
        = pubkeys.insert (hybridHash env pubkey pqcPub) pubkey := by
  unfold SpkMan.addHybridPubkeyIndex
  split
  · exact .inl rfl
  next listed found =>
    obtain rfl := only.1 _ _ found
    split
    · exact .inl rfl
    · exact .inr rfl

theorem ListsOnly.addHybridPubkeyIndex_only {pubkeys : StdMap CKeyID CPubKey}
    (only : ListsOnly env pubkey pubkeys) (keyid : CKeyID) (pqcPub : Bytes) :
    ListsOnly env pubkey (SpkMan.addHybridPubkeyIndex env keyid pqcPub pubkeys) := by
  rcases only.addHybridPubkeyIndex keyid pqcPub with same | added
  · rwa [same]
  · rw [added]
    exact only.insert _

theorem ListsOnly.addHybridPubkeyIndex_keeps {pubkeys : StdMap CKeyID CPubKey}
    (only : ListsOnly env pubkey pubkeys) (keyid : CKeyID) (pqcPub : Bytes) {id : CKeyID}
    (listed : id ∈ pubkeys) : id ∈ SpkMan.addHybridPubkeyIndex env keyid pqcPub pubkeys := by
  rcases only.addHybridPubkeyIndex keyid pqcPub with same | added
  · rwa [same]
  · rw [added]
    exact (AList.mem_insert _).mpr (.inr listed)

theorem ListsOnly.addHybridPubkeyIndex_self {pubkeys : StdMap CKeyID CPubKey}
    (only : ListsOnly env pubkey pubkeys) {pqcPub : Bytes} (present : pqcPub ≠ []) :
    hybridHash env pubkey pqcPub ∈
      SpkMan.addHybridPubkeyIndex env (env.crypto.getID pubkey) pqcPub pubkeys := by
  simp [SpkMan.addHybridPubkeyIndex, only.2, present]

theorem ListsOnly.foldl {ν : Type} (pqcPub : ν → Bytes) (m : StdMap CKeyID ν)
    {pubkeys : StdMap CKeyID CPubKey} (only : ListsOnly env pubkey pubkeys) :
    ListsOnly env pubkey (m.entries.foldl
      (fun pubkeys entry => SpkMan.addHybridPubkeyIndex env entry.1 (pqcPub entry.2) pubkeys) pubkeys) ∧
    (∀ id ∈ pubkeys, id ∈ m.entries.foldl
      (fun pubkeys entry => SpkMan.addHybridPubkeyIndex env entry.1 (pqcPub entry.2) pubkeys) pubkeys) ∧
    ∀ v, m.lookup (env.crypto.getID pubkey) = some v → pqcPub v ≠ [] →
      hybridHash env pubkey (pqcPub v) ∈ m.entries.foldl
        (fun pubkeys entry => SpkMan.addHybridPubkeyIndex env entry.1 (pqcPub entry.2) pubkeys)
        pubkeys := by
  refine ⟨?_, fun id listed => ?_, fun v found present => ?_⟩
  · exact List.foldlRecOn _ _ only fun _ only entry _ => only.addHybridPubkeyIndex_only _ _
  · refine (List.foldlRecOn (motive := fun pubkeys => ListsOnly env pubkey pubkeys ∧ id ∈ pubkeys)
      _ _ ⟨only, listed⟩ ?_).2
    rintro pubkeys ⟨only, listed⟩ entry -
    exact ⟨only.addHybridPubkeyIndex_only _ _, only.addHybridPubkeyIndex_keeps _ _ listed⟩
  · refine foldl_entries_of_lookup (ListsOnly env pubkey)
      (fun pubkeys => hybridHash env pubkey (pqcPub v) ∈ pubkeys) ?_ found ?_ ?_ only
    · exact fun _ _ _ only => only.addHybridPubkeyIndex_only _ _
    · exact fun _ only => only.addHybridPubkeyIndex_self present
    · exact fun _ _ _ only listed => only.addHybridPubkeyIndex_keeps _ _ listed

def pqcPubkeyOf (keyid : CKeyID) (w : SpkMan Cache) : Option Bytes :=
  match w.mMapPqcKeys.lookup keyid with
  | some hybrid => some hybrid.mPqcPublicKey
  | none => (w.mMapCryptedPqcKeys.lookup keyid).map (·.1)

theorem providerPubkeys_single (single : env.desc.pubkeys index = [pubkey]) :
    ListsOnly env pubkey (w.providerPubkeys env index) ∧
      ∀ pqcPub, w.pqcPubkeyOf (env.crypto.getID pubkey) = some pqcPub → pqcPub ≠ [] →
        (w.providerPubkeys env index).lookup (hybridHash env pubkey pqcPub) = some pubkey := by
  have start : ListsOnly env pubkey (expandedPubkeys env index) := by
    rw [expandedPubkeys, single]
    exact ⟨AllEntries.empty.insert rfl, AList.lookup_insert _⟩
  obtain ⟨plainOnly, -, plainListed⟩ := start.foldl HybridKey.mPqcPublicKey w.mMapPqcKeys
  obtain ⟨only, kept, cryptedListed⟩ := plainOnly.foldl Prod.fst w.mMapCryptedPqcKeys
  refine ⟨only, fun pqcPub stored present => ?_⟩
  have listed : hybridHash env pubkey pqcPub ∈ w.providerPubkeys env index := by
    unfold pqcPubkeyOf at stored
    split at stored
    next hybrid found =>
      cases stored
      exact kept _ (plainListed hybrid found present)
    · obtain ⟨pair, found, rfl⟩ := Option.map_eq_some_iff.mp stored
      exact cryptedListed pair found present
  obtain ⟨other, found⟩ := Option.isSome_iff_exists.mp (AList.lookup_isSome.mpr listed)
  rw [found, only.1 _ _ found]

theorem lookup_listPqcKey {pubkeys : StdMap CKeyID CPubKey} {keyid : CKeyID} {hybrid : HybridKey}
    {pqcKeys : StdMap CKeyID HybridKey} :
    (listPqcKey env pubkeys keyid hybrid pqcKeys).lookup keyid = some hybrid := by
  grind [listPqcKey, AList.lookup_insert, AList.lookup_insert_ne]

theorem foldl_providePqcKey {ν : Type} {full : (_ : CKeyID) × ν → Option HybridKey}
    {keyid : CKeyID} (others : ∀ entry, entry.1 ≠ keyid → full entry = none) (m : StdMap CKeyID ν)
    {pubkeys : StdMap CKeyID CPubKey} (start : StdMap CKeyID HybridKey) :
    (m.entries.foldl (providePqcKey env pubkeys full) start).lookup keyid
      = ((m.lookup keyid).bind fun v => full ⟨keyid, v⟩).or (start.lookup keyid) := by
  have unchanged {pqcKeys : StdMap CKeyID HybridKey} {entry : (_ : CKeyID) × ν}
      (skipped : full entry = none) : providePqcKey env pubkeys full pqcKeys entry = pqcKeys := by
    rw [providePqcKey, skipped]
  cases provided : (m.lookup keyid).bind fun v => full ⟨keyid, v⟩ with
  | none =>
    rw [Option.none_or]
    refine List.foldlRecOn (motive := fun pqcKeys : StdMap CKeyID HybridKey =>
      pqcKeys.lookup keyid = start.lookup keyid) _ _ rfl ?_
    intro pqcKeys same entry listed
    rw [unchanged, same]
    grind [lookup_of_mem_entries]
  | some hybrid =>
    obtain ⟨v, found, full_eq⟩ := Option.bind_eq_some_iff.mp provided
    rw [Option.some_or]
    refine foldl_entries_of_lookup (fun _ => True)
      (fun pqcKeys : StdMap CKeyID HybridKey => pqcKeys.lookup keyid = some hybrid)
      (fun _ _ _ _ => trivial) found ?_ ?_ trivial
    all_goals grind [providePqcKey, lookup_listPqcKey, lookup_of_mem_entries]

theorem signingProviderAt_single (cached : env.desc.expandFromCache w.cache index = true)
    (single : env.desc.pubkeys index = [pubkey]) (havePrivate : w.havePrivateKeys = true)
    (expanded : env.desc.expandPrivate (w.getKeys env) index
      = AList.singleton (env.crypto.getID pubkey) key) :
    ∃ provider, w.signingProviderAt env index true = some provider ∧
      ListsOnly env pubkey provider.pubkeys ∧
      (∀ pqcPub, w.pqcPubkeyOf (env.crypto.getID pubkey) = some pqcPub → pqcPub ≠ [] →
        provider.pubkeys.lookup (hybridHash env pubkey pqcPub) = some pubkey) ∧
      provider.keys = AList.singleton (env.crypto.getID pubkey) key ∧
      provider.pqcKeys.lookup (env.crypto.getID pubkey) =
        ((w.mMapCryptedPqcKeys.lookup (env.crypto.getID pubkey)).bind fun pair =>
          w.decryptedPqcKey env provider.pubkeys provider.keys ⟨env.crypto.getID pubkey, pair⟩).or
        ((w.mMapPqcKeys.lookup (env.crypto.getID pubkey)).bind fun hybrid =>
          fullPqcKey env index provider.pubkeys provider.keys ⟨env.crypto.getID pubkey, hybrid⟩) := by
  obtain ⟨only, hybrids⟩ := @providerPubkeys_single _ env index pubkey w single
  have other {id : CKeyID} (different : id ≠ env.crypto.getID pubkey) :
      (AList.singleton (env.crypto.getID pubkey) key : KeyMap).lookup id = none := by
    rwa [AList.lookup_eq_none, AList.mem_keys, AList.keys_singleton, List.mem_singleton]
  refine ⟨{
      pubkeys := w.providerPubkeys env index
      origins := (env.desc.pubkeys index).map env.crypto.getID
      keys := AList.singleton (env.crypto.getID pubkey) key
      pqcKeys := w.providerPqcKeys env index (w.providerPubkeys env index)
        (AList.singleton (env.crypto.getID pubkey) key) }, ?_, only, hybrids, rfl, ?_⟩
  · rw [signingProviderAt, if_pos cached, havePrivate, Bool.and_self, if_pos rfl, expanded]
  · show (providerPqcKeys env index _ _ w).lookup _ = _
    rw [providerPqcKeys, foldl_providePqcKey, foldl_providePqcKey, AList.lookup_empty, Option.or_none]
    all_goals grind [fullPqcKey, decryptedPqcKey]

end SpkMan

end QuantBTC.Wallet
