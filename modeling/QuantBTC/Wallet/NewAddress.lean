/-
# Wallet.NewAddress -- the addresses a wallet hands out

`GetNewDestination` hands out the hybrid address of the next index when it finds a post-quantum
key for it.  It looks at the keys stored in the clear, while a Dilithium key of an encrypted wallet
is stored encrypted, with its public half beside it: the wallet has the key, and the plain address
is handed out.

`TopUp` derives the post-quantum key of an index when the index enters the keypool, from the
private key.  A locked wallet expands indices from the cache and leaves the post-quantum keys out,
and no later top-up comes back to an index: it starts where the last one ended, and passes over the
public keys it knows.
-/
import QuantBTC.Wallet.Spendable

namespace QuantBTC.Wallet

set_option autoImplicit false

open Primitives Script Theory.Loops Theory.Maps

variable {Cache : Type} {env : WalletEnv Cache}

structure KeyCrypto.Derives (crypto : KeyCrypto) : Prop where
  dilithium : ∀ seed, (crypto.dilithiumDeriveKeyPair seed).isSome = true
  falcon : ∀ seed, (crypto.falconDeriveKeyPair seed).isSome = true

namespace SpkMan

section

variable (env) (child : Nat → CKey) (config : PQCConfig)

def HoldsPqcKey (w : SpkMan Cache) (i : Nat) : Prop :=
  (w.pqcPubkeyOf (idAt env child i)).isSome = true

def ToppedUp (w : SpkMan Cache) (i : Nat) : Prop :=
  i < w.mCachedCount ∨ pubkeyAt env child i ∈ w.mMapPubkeys

instance (w : SpkMan Cache) (i : Nat) : Decidable (HoldsPqcKey env child w i) := by
  unfold HoldsPqcKey
  infer_instance

instance (w : SpkMan Cache) (i : Nat) : Decidable (ToppedUp env child w i) := by
  unfold ToppedUp
  infer_instance

structure CanHandOut (w : SpkMan Cache) : Prop where
  singleType : env.desc.isSingleType = true
  ranged : env.desc.isRange = true
  cached : env.desc.expandFromCache w.cache w.nextIndex = true
  counted : w.mCachedCount ≤ w.rangeEnd
  whole : (∀ i, w.mCachedCount ≤ i → i < w.newRangeEnd env config 0 →
      (w.expandIndex env (w.getKeys env) i).isSome = true) ∨
    w.expandIndex env (w.getKeys env) w.mCachedCount = none

end

variable {masterKey : Bytes} {root : CKey} {child : Nat → CKey} {signer : Signer}
  {config : PQCConfig} {cache : Cache} {w w' : SpkMan Cache} {id : CKeyID} {i j : Nat}

/-! ## A key that is held -/

structure KeepsHeld (id : CKeyID) (w w' : SpkMan Cache) : Prop where
  nextIndex : w'.nextIndex = w.nextIndex
  pqcKey : w'.mMapPqcKeys.lookup id = w.mMapPqcKeys.lookup id
  cryptedPqcKey : w'.mMapCryptedPqcKeys.lookup id = w.mMapCryptedPqcKeys.lookup id

theorem KeepsHeld.refl (w : SpkMan Cache) : KeepsHeld id w w := ⟨rfl, rfl, rfl⟩

theorem KeepsHeld.trans {w'' : SpkMan Cache} (first : KeepsHeld id w w')
    (second : KeepsHeld id w' w'') : KeepsHeld id w w'' :=
  ⟨second.nextIndex.trans first.nextIndex, second.pqcKey.trans first.pqcKey,
    second.cryptedPqcKey.trans first.cryptedPqcKey⟩

theorem KeepsHeld.pqcPubkeyOf (kept : KeepsHeld id w w') :
    w'.pqcPubkeyOf id = w.pqcPubkeyOf id := by
  rw [SpkMan.pqcPubkeyOf, SpkMan.pqcPubkeyOf, kept.pqcKey, kept.cryptedPqcKey]

theorem Atom.keepsHeld {provider : KeyMap} {bound : Nat}
    (atom : Atom env config provider bound w w') (held : w.pqcPubkeyOf id ≠ none) :
    KeepsHeld id w w' := by
  cases atom with
  | script | pubkey | cache | count => exact ⟨rfl, rfl, rfl⟩
  | @pqcKey _ _ _ pubkey _ _ _ _ _ fresh freshCrypted _ stores =>
    have other : id ≠ env.crypto.getID pubkey := by
      rintro rfl
      exact held (pqcPubkeyOf_eq_none.mpr ⟨fresh, freshCrypted⟩)
    cases stores with
    | falcon | plain => exact ⟨rfl, AList.lookup_insert_ne other, rfl⟩
    | crypted => exact ⟨rfl, rfl, AList.lookup_insert_ne other⟩

variable {size : Nat} {ok : Bool}

theorem topUp_keepsHeld (held : w.pqcPubkeyOf id ≠ none)
    (topped : w.topUp env config size = .ok (w', ok)) : KeepsHeld id w w' := by
  refine topUp_keeps ?_ ?_ ?_ topped (KeepsHeld.refl w)
  · intro w₁ rangeStart rangeEnd kept
    exact ⟨kept.nextIndex, kept.pqcKey, kept.cryptedPqcKey⟩
  · intro w₁ kept
    exact ⟨kept.nextIndex, kept.pqcKey, kept.cryptedPqcKey⟩
  · intro w₁ w₂ atom kept
    apply kept.trans
    apply atom.keepsHeld
    rwa [kept.pqcPubkeyOf]

theorem topUpOne_keepsHeld (held : w.pqcPubkeyOf id ≠ none)
    (topped : w.topUpOne env config = .ok (w', ok)) : KeepsHeld id w w' := by
  unfold topUpOne at topped
  split at topped
  · exact topUp_keepsHeld held topped
  · cases topped
    exact .refl w

/-! ## The address -/

theorem OwnPqcKey.pub_ne (correct : signer.Correct env.crypto) {encrypted : Bool}
    {pqcPub stored : Bytes} (own : OwnPqcKey env child encrypted i pqcPub stored) : pqcPub ≠ [] := by
  cases own with
  | falcon derived => exact ((correct_deriveFalcon correct derived).ne_nil (by decide)).1
  | dilithium _ derived => exact ((correct_deriveDilithium correct derived).ne_nil (by decide)).1

theorem Owned.takeDestination_eq (inv : Owned env masterKey root child w)
    (wpkh : Wpkh env child masterKey root) (correct : signer.Correct env.crypto)
    (enabled : config.enableHybridSignatures = true) {pqcPub : Bytes}
    (held : w.pqcPubkeyOf (idAt env child w.nextIndex) = some pqcPub) :
    (w.takeDestination env config).2 =
      if idAt env child w.nextIndex ∈ w.mMapPqcKeys then
        payToKeyHash (hybridHash env (pubkeyAt env child w.nextIndex) pqcPub)
      else payToKeyHash (idAt env child w.nextIndex) := by
  have next := nextHybrid_eq wpkh w config
  rw [if_pos enabled] at next
  unfold takeDestination
  cases stored : w.mMapPqcKeys.lookup (idAt env child w.nextIndex) with
  | none =>
    rw [stored] at next
    rw [next, if_neg (AList.lookup_eq_none.mp stored), wpkh.scripts]
    rfl
  | some hybrid =>
    obtain ⟨index, -, -, own⟩ := inv.pqcKeys _ _ stored
    obtain rfl : hybrid.mPqcPublicKey = pqcPub := by simpa [pqcPubkeyOf, stored] using held
    simp [stored, if_neg (OwnPqcKey.pub_ne correct own), next, if_pos (mem_of_lookup stored)]

theorem getNewDestination_eq_some {script : Bytes}
    (handed : w.getNewDestination env config = .ok (w', some script)) :
    ∃ first ok second, w.topUp env config 0 = .ok (first, ok) ∧
      first.topUpOne env config = .ok (second, true) ∧
      script = (second.takeDestination env config).2 ∧ env.desc.isRange = true ∧
      w' = (second.takeDestination env config).1 := by
  unfold getNewDestination at handed
  split at handed
  next allowed =>
    have ranged : env.desc.isRange = true := by
      simp only [canGetAddresses, Bool.and_eq_true] at allowed
      exact allowed.1.2
    cases topped : w.topUp env config 0 with
    | error db =>
      rw [topped] at handed
      cases handed
    | ok result =>
      obtain ⟨first, ok⟩ := result
      rw [topped] at handed
      change (first.topUpOne env config >>= _) = _ at handed
      cases toppedOne : first.topUpOne env config with
      | error db =>
        rw [toppedOne] at handed
        cases handed
      | ok result =>
        obtain ⟨second, ok'⟩ := result
        rw [toppedOne] at handed
        change (if (ok' && _) = true then _ else _) = _ at handed
        grind
  · cases handed

theorem Owned.handed_hybrid_iff (inv : Owned env masterKey root child w)
    (wpkh : Wpkh env child masterKey root) (correct : signer.Correct env.crypto)
    (enabled : config.enableHybridSignatures = true) {pqcPub : Bytes}
    (held : w.pqcPubkeyOf (idAt env child w.nextIndex) = some pqcPub)
    (apart : hybridHash env (pubkeyAt env child w.nextIndex) pqcPub ≠ idAt env child w.nextIndex)
    {script : Bytes} (handed : w.getNewDestination env config = .ok (w', some script)) :
    script = payToKeyHash (hybridHash env (pubkeyAt env child w.nextIndex) pqcPub) ↔
      idAt env child w.nextIndex ∈ w.mMapPqcKeys := by
  obtain ⟨first, ok, second, topped, toppedOne, rfl, -⟩ := getNewDestination_eq_some handed
  have present : w.pqcPubkeyOf (idAt env child w.nextIndex) ≠ none := by simp [held]
  have keptFirst := topUp_keepsHeld present topped
  have kept := keptFirst.trans (topUpOne_keepsHeld (by rwa [keptFirst.pqcPubkeyOf]) toppedOne)
  have invFirst := inv.topUp wpkh correct topped
  have invSecond : Owned env masterKey root child second := by
    unfold topUpOne at toppedOne
    split at toppedOne
    · exact invFirst.topUp wpkh correct toppedOne
    · cases toppedOne
      exact invFirst
  have clear : idAt env child w.nextIndex ∈ second.mMapPqcKeys ↔
      idAt env child w.nextIndex ∈ w.mMapPqcKeys := by
    rw [← AList.lookup_isSome, ← AList.lookup_isSome, kept.pqcKey]
  have address := @Owned.takeDestination_eq _ _ _ _ _ _ config second invSecond wpkh correct enabled
    pqcPub (by rw [kept.nextIndex, kept.pqcPubkeyOf, held])
  rw [kept.nextIndex] at address
  rw [address, ← clear]
  split
  next stored => exact ⟨fun _ => stored, fun _ => rfl⟩
  next missing =>
    refine ⟨fun same => ?_, fun stored => absurd stored missing⟩
    exact absurd (payToKeyHash_inj (wpkh.hashSize _) (wpkh.hashSize _) same).symm apart

/-! ## Handing one out -/

theorem topUpPubkey_frame (i : Nat) (privKeys : KeyMap) (w : SpkMan Cache) (pubkey : CPubKey) :
    ∃ scripts pubkeys pqcKeys cryptedPqcKeys db,
      (topUpPubkey env config i privKeys w pubkey).1 =
        { w with
          mMapScriptPubKeys := scripts, mMapPubkeys := pubkeys, mMapPqcKeys := pqcKeys
          mMapCryptedPqcKeys := cryptedPqcKeys, db } := by
  unfold topUpPubkey
  split
  · exact ⟨_, _, _, _, _, rfl⟩
  · dsimp only
    split
    · exact ⟨_, _, _, _, _, rfl⟩
    · split
      · exact ⟨_, _, _, _, _, rfl⟩
      next ecdsaKey _ =>
        rcases @topUpPqcKey_stores _ env config (w.addPubkey pubkey i) i ecdsaKey pubkey with
          same | stores
        · rw [same]
          exact ⟨_, _, _, _, _, rfl⟩
        · generalize (SpkMan.topUpPqcKey env config i ecdsaKey pubkey (w.addPubkey pubkey i)).1
            = stored at stores
          cases stores <;> exact ⟨_, _, _, _, _, rfl⟩

variable (env) in
structure Advances (n : Nat) (w w' : SpkMan Cache) : Prop where
  nextIndex : w'.nextIndex = w.nextIndex
  rangeEnd : w'.rangeEnd = w.rangeEnd
  count : w'.mCachedCount = w.mCachedCount + n
  cache : ∀ i, env.desc.expandFromCache w.cache i = true →
    env.desc.expandFromCache w'.cache i = true

theorem Advances.expandIndex {n : Nat} (advances : Advances env n w w') {provider : KeyMap}
    (expands : (w.expandIndex env provider i).isSome = true) :
    (w'.expandIndex env provider i).isSome = true := by
  unfold SpkMan.expandIndex at expands ⊢
  split
  · rfl
  next unknown =>
    rw [if_neg fun known => unknown (advances.cache i known)] at expands
    exact expands

theorem Owned.topUpIndex_advances (inv : Owned env masterKey root child w)
    (wpkh : Wpkh env child masterKey root) (correct : signer.Correct env.crypto)
    (config : PQCConfig) (expands : (w.expandIndex env (w.getKeys env) i).isSome = true) :
    (SpkMan.topUpIndex env config (w.getKeys env) w i).2 = true ∧
      Advances env 1 w (SpkMan.topUpIndex env config (w.getKeys env) w i).1 := by
  obtain ⟨items, expanded⟩ := Option.isSome_iff_exists.mp expands
  obtain ⟨v, done, -, -, topped⟩ :=
    @Owned.topUpIndex_eq _ _ _ _ _ _ _ config inv wpkh correct _ _ expanded
  obtain ⟨scripts, pubkeys, pqcKeys, cryptedPqcKeys, db, frame⟩ :=
    @topUpPubkey_frame _ env config i
      ((w.addScripts env i).privKeysAt env config (w.getKeys env) i) (w.addScripts env i)
      (pubkeyAt env child i)
  rw [done] at frame
  obtain rfl : v = _ := frame
  rw [topped]
  refine ⟨rfl, ?_⟩
  cases items with
  | none => exact ⟨rfl, rfl, rfl, fun _ known => known⟩
  | some items => exact ⟨rfl, rfl, rfl, fun j known => env.desc.expandFromCache_merge _ _ j known⟩

theorem Owned.topUpIndices_advance (inv : Owned env masterKey root child w)
    (wpkh : Wpkh env child masterKey root) (correct : signer.Correct env.crypto)
    (config : PQCConfig) {indices : List Nat}
    (expands : ∀ i ∈ indices, (w.expandIndex env (w.getKeys env) i).isSome = true) :
    ∃ last, loop (SpkMan.topUpIndex env config (w.getKeys env)) indices w = (last, true) ∧
      Advances env indices.length w last := by
  induction indices generalizing w with
  | nil => exact ⟨w, rfl, rfl, rfl, rfl, fun _ known => known⟩
  | cons i rest ih =>
    obtain ⟨ok, first⟩ :=
      inv.topUpIndex_advances wpkh correct config (expands i List.mem_cons_self)
    have same : (SpkMan.topUpIndex env config (w.getKeys env) w i).1.getKeys env = w.getKeys env :=
      (Atoms.sameKeys (topUpIndex_atoms (Nat.lt_succ_self i))).getKeys
    obtain ⟨last, done, later⟩ := ih (inv.topUpIndex wpkh correct i) (by
      intro j listed
      rw [same]
      exact first.expandIndex (expands j (List.mem_cons_of_mem _ listed)))
    rw [same] at done
    refine ⟨last, by rw [loop_cons_of_ok ok, done], ?_, ?_, ?_, ?_⟩
    · exact later.nextIndex.trans first.nextIndex
    · exact later.rangeEnd.trans first.rangeEnd
    · rw [later.count, first.count, List.length_cons]
      omega
    · exact fun j known => later.cache j (first.cache j known)

theorem CanHandOut.topUp (ready : CanHandOut env config w) (inv : Owned env masterKey root child w)
    (wpkh : Wpkh env child masterKey root) (correct : signer.Correct env.crypto) :
    ∃ first ok, w.topUp env config 0 = .ok (first, ok) ∧ first.mCachedCount ≤ first.rangeEnd ∧
      env.desc.expandFromCache first.cache first.nextIndex = true := by
  have fixed : w.fixRange env = w := if_pos ready.ranged
  have grows : w.rangeEnd ≤ w.newRangeEnd env config 0 := by
    simp [newRangeEnd, ready.ranged]
  have counted := ready.counted
  -- the first index that is to be added cannot be expanded, or none fails
  by_cases stops : w.mCachedCount < w.newRangeEnd env config 0 ∧
      w.expandIndex env (w.getKeys env) w.mCachedCount = none
  · obtain ⟨behind, stops⟩ := stops
    obtain ⟨n, added⟩ : ∃ n, w.newRangeEnd env config 0 - w.mCachedCount = n + 1 :=
      ⟨_, (Nat.succ_pred_eq_of_pos (by omega)).symm⟩
    have failed : SpkMan.topUpIndex env config (w.getKeys env) w w.mCachedCount = (w, false) := by
      unfold SpkMan.topUpIndex
      rw [stops]
    refine ⟨w, false, ?_, counted, ready.cached⟩
    unfold SpkMan.topUp
    dsimp only
    rw [fixed, added, List.range'_succ, loop_cons_of_fail (by rw [failed]), failed]
  · have expands : ∀ i ∈ List.range' w.mCachedCount (w.newRangeEnd env config 0 - w.mCachedCount),
        (w.expandIndex env (w.getKeys env) i).isSome = true := by
      intro i listed
      rw [List.mem_range'_1] at listed
      rcases ready.whole with all | none
      · apply all <;> omega
      · exact absurd ⟨by omega, none⟩ stops
    obtain ⟨last, done, advances⟩ := inv.topUpIndices_advance wpkh correct config expands
    have reached : last.mCachedCount = w.newRangeEnd env config 0 := by
      rw [advances.count, List.length_range']
      omega
    refine ⟨last.finishTopUp (w.newRangeEnd env config 0), true, ?_, reached.le, ?_⟩
    · unfold SpkMan.topUp
      dsimp only
      rw [fixed, done]
      exact if_pos reached.symm
    · show env.desc.expandFromCache last.cache last.nextIndex = true
      rw [advances.nextIndex]
      exact advances.cache _ ready.cached

/-- **An address is handed out.** -/
theorem CanHandOut.handsOut (ready : CanHandOut env config w)
    (inv : Owned env masterKey root child w) (wpkh : Wpkh env child masterKey root)
    (correct : signer.Correct env.crypto) (havePrivate : w.havePrivateKeys = true) :
    ∃ w' script, w.getNewDestination env config = .ok (w', some script) := by
  obtain ⟨first, ok, topped, covered, cached⟩ := ready.topUp inv wpkh correct
  have toppedOne : first.topUpOne env config = .ok (first, true) := if_neg (by omega)
  have allowed : w.canGetAddresses env = true := by
    simp [canGetAddresses, ready.singleType, ready.ranged, havePrivate]
  refine ⟨(first.takeDestination env config).1, (first.takeDestination env config).2, ?_⟩
  unfold getNewDestination
  rw [if_pos allowed, topped]
  show (first.topUpOne env config >>= _) = _
  rw [toppedOne]
  exact if_pos (by rw [cached]; rfl)

/-! ## Keys for the keypool -/

theorem holdsPqcKey_iff : HoldsPqcKey env child w i ↔
    idAt env child i ∈ w.mMapPqcKeys ∨ idAt env child i ∈ w.mMapCryptedPqcKeys := by
  rw [HoldsPqcKey, Option.isSome_iff_ne_none, Ne, pqcPubkeyOf_eq_none]
  tauto

theorem StoresPqcKey.holdsPqcKey_iff {ecdsaKey : CKey}
    (stores : StoresPqcKey env config i ecdsaKey (pubkeyAt env child i) w w') (j : Nat) :
    HoldsPqcKey env child w' j ↔
      HoldsPqcKey env child w j ∨ idAt env child j = idAt env child i := by
  simp only [SpkMan.holdsPqcKey_iff]
  cases stores with
  | falcon | plain =>
    show idAt env child j ∈ w.mMapPqcKeys.insert (idAt env child i) _ ∨ _ ↔ _
    rw [AList.mem_insert]
    tauto
  | crypted =>
    show _ ∨ idAt env child j ∈ w.mMapCryptedPqcKeys.insert (idAt env child i) _ ↔ _
    rw [AList.mem_insert]
    tauto

theorem StoresPqcKey.mMapPubkeys_eq {ecdsaKey : CKey} {pubkey : CPubKey}
    (stores : StoresPqcKey env config i ecdsaKey pubkey w w') : w'.mMapPubkeys = w.mMapPubkeys := by
  cases stores <;> rfl

theorem Opened.storesPqcKey (opened : Opened env masterKey root w)
    (wpkh : Wpkh env child masterKey root) (correct : signer.Correct env.crypto)
    (derives : env.crypto.Derives) (config : PQCConfig) (i : Nat) :
    StoresPqcKey env config i (child i) (pubkeyAt env child i) w
      (w.topUpPqcKey env config i (child i) (pubkeyAt env child i)).1 := by
  have valid : (child i).isValid = true := by
    have size := (wpkh.valid i).size
    rw [CKey.isValid, bne_iff_ne]
    rintro empty
    simp [empty] at size
  cases scheme : config.useFalcon with
  | true =>
    obtain ⟨pair, derived⟩ : ∃ pair,
        env.crypto.deriveFalcon (child i) env.desc.id i (pubkeyAt env child i) = some pair := by
      rw [KeyCrypto.deriveFalcon, if_pos valid]
      exact Option.isSome_iff_exists.mp (derives.falcon _)
    simpa [topUpPqcKey, scheme, derived] using StoresPqcKey.falcon scheme derived
  | false =>
    obtain ⟨pair, derived⟩ : ∃ pair,
        env.crypto.deriveDilithium (child i) env.desc.id i (pubkeyAt env child i) = some pair := by
      rw [KeyCrypto.deriveDilithium, if_pos valid]
      exact Option.isSome_iff_exists.mp (derives.dilithium _)
    cases encrypted : w.hasEncryptionKeys with
    | false =>
      simpa [topUpPqcKey, scheme, derived, encrypted]
        using StoresPqcKey.plain scheme encrypted derived
    | true =>
      obtain ⟨-, priv_ne⟩ := (correct_deriveDilithium correct derived).ne_nil (by decide)
      obtain ⟨secret, encrypts, -⟩ := wpkh.inverts _ priv_ne
        (env.crypto.getHash (pubkeyAt env child i))
      rw [← opened.master encrypted] at encrypts
      simpa [topUpPqcKey, scheme, derived, encrypted, encrypts]
        using StoresPqcKey.crypted scheme encrypted derived encrypts

theorem Opened.topUpPubkey_holds (opened : Opened env masterKey root w)
    (wpkh : Wpkh env child masterKey root) (correct : signer.Correct env.crypto)
    (derives : env.crypto.Derives) (enabled : config.enableHybridSignatures = true)
    {entered : SpkMan Cache} (done : topUpPubkey env config i (w.privKeysAt env config (w.getKeys
      env) i) w (pubkeyAt env child i) = (entered, ok)) (j : Nat) :
    (HoldsPqcKey env child entered j ↔ HoldsPqcKey env child w j ∨
      idAt env child j = idAt env child i ∧ pubkeyAt env child i ∉ w.mMapPubkeys) ∧
    (pubkeyAt env child j ∈ entered.mMapPubkeys ↔
      pubkeyAt env child j = pubkeyAt env child i ∨ pubkeyAt env child j ∈ w.mMapPubkeys) := by
  unfold topUpPubkey at done
  split at done
  · grind
  next new =>
    have found : (w.addPubkey (pubkeyAt env child i) i).ecdsaKeyFor env
        (w.privKeysAt env config (w.getKeys env) i) (idAt env child i) = some (child i) :=
      opened.ecdsaKeyFor_eq wpkh enabled i
    dsimp only at done
    split at done
    next stored =>
      cases done
      have held : HoldsPqcKey env child w i := by
        rw [holdsPqcKey_iff]
        exact stored.resolve_left (by simp [enabled])
      refine ⟨⟨.inl, ?_⟩, AList.mem_insert _⟩
      rintro (holds | ⟨same, -⟩)
      · exact holds
      · rwa [HoldsPqcKey, same]
    · split at done
      next missing => exact absurd (found.symm.trans missing) (by simp)
      next ecdsaKey given =>
        obtain rfl : child i = ecdsaKey := Option.some.inj (found.symm.trans given)
        have added : Opened env masterKey root (w.addPubkey (pubkeyAt env child i) i) :=
          ⟨opened.keys, opened.havePrivate, opened.master⟩
        have stores := added.storesPqcKey wpkh correct derives config i
        rw [done] at stores
        have holds := stores.holdsPqcKey_iff j
        refine ⟨?_, ?_⟩
        · rw [holds]
          exact or_congr Iff.rfl (by simp [new])
        · rw [stores.mMapPubkeys_eq]
          exact AList.mem_insert _

theorem Owned.topUpIndex_holds (inv : Owned env masterKey root child w)
    (opened : Opened env masterKey root w) (wpkh : Wpkh env child masterKey root)
    (correct : signer.Correct env.crypto) (derives : env.crypto.Derives)
    (enabled : config.enableHybridSignatures = true)
    (ok : (SpkMan.topUpIndex env config (w.getKeys env) w i).2 = true) (has : env.desc.Has j) :
    (HoldsPqcKey env child (SpkMan.topUpIndex env config (w.getKeys env) w i).1 j ↔
      HoldsPqcKey env child w j ∨ j = i ∧ pubkeyAt env child i ∉ w.mMapPubkeys) ∧
    (pubkeyAt env child j ∈ (SpkMan.topUpIndex env config (w.getKeys env) w i).1.mMapPubkeys ↔
      j = i ∨ pubkeyAt env child j ∈ w.mMapPubkeys) := by
  cases expanded : w.expandIndex env (w.getKeys env) i with
  | none =>
    unfold SpkMan.topUpIndex at ok
    simp [expanded] at ok
  | some items =>
    obtain ⟨v, done, -, -, topped⟩ :=
      @Owned.topUpIndex_eq _ _ _ _ _ _ _ config inv wpkh correct _ _ expanded
    have scripts : Opened env masterKey root (w.addScripts env i) :=
      ⟨opened.keys, opened.havePrivate, opened.master⟩
    obtain ⟨holds, listed⟩ := scripts.topUpPubkey_holds wpkh correct derives enabled done j
    have sameId : idAt env child j = idAt env child i ↔ j = i :=
      ⟨wpkh.distinct has (has_of_expandIndex expanded), fun same => by rw [same]⟩
    have samePubkey : pubkeyAt env child j = pubkeyAt env child i ↔ j = i :=
      ⟨fun same => sameId.mp (by rw [idAt, same, idAt]), fun same => by rw [same]⟩
    rw [sameId] at holds
    rw [samePubkey] at listed
    rw [topped]
    -- neither the cache nor the count is looked at
    cases items with
    | none => exact ⟨holds, listed⟩
    | some items => exact ⟨holds, listed⟩

theorem Owned.topUpIndices_holds (inv : Owned env masterKey root child w)
    (opened : Opened env masterKey root w) (wpkh : Wpkh env child masterKey root)
    (correct : signer.Correct env.crypto) (derives : env.crypto.Derives)
    (enabled : config.enableHybridSignatures = true) {indices : List Nat} {last : SpkMan Cache}
    (done : loop (SpkMan.topUpIndex env config (w.getKeys env)) indices w = (last, true))
    (has : env.desc.Has j) :
    HoldsPqcKey env child last j ↔
      HoldsPqcKey env child w j ∨ j ∈ indices ∧ pubkeyAt env child j ∉ w.mMapPubkeys := by
  induction indices generalizing w with
  | nil =>
    cases done
    simp
  | cons i rest ih =>
    cases ok : (SpkMan.topUpIndex env config (w.getKeys env) w i).2 with
    | false =>
      simp [loop_cons_of_fail ok] at done
    | true =>
      rw [loop_cons_of_ok ok] at done
      obtain ⟨holds, listed⟩ :=
        inv.topUpIndex_holds opened wpkh correct derives enabled ok has
      have same : SameKeys w (SpkMan.topUpIndex env config (w.getKeys env) w i).1 :=
        Atoms.sameKeys (topUpIndex_atoms (Nat.lt_succ_self i))
      have later := ih (inv.topUpIndex wpkh correct i) (same.opened opened) (by
        rw [same.getKeys]
        exact done)
      grind

theorem Owned.topUp_holds (inv : Owned env masterKey root child w)
    (opened : Opened env masterKey root w) (wpkh : Wpkh env child masterKey root)
    (correct : signer.Correct env.crypto) (derives : env.crypto.Derives)
    (enabled : config.enableHybridSignatures = true)
    (topped : w.topUp env config size = .ok (w', true)) :
    w'.rangeEnd = w.newRangeEnd env config size ∧
      ∀ j, env.desc.Has j → (HoldsPqcKey env child w' j ↔ HoldsPqcKey env child w j ∨
        j < w.newRangeEnd env config size ∧ ¬ ToppedUp env child w j) := by
  have fixed : Owned env masterKey root child (w.fixRange env) ∧ SameKeys w (w.fixRange env) ∧
      (w.fixRange env).mMapPubkeys = w.mMapPubkeys ∧
      ∀ j, HoldsPqcKey env child (w.fixRange env) j ↔ HoldsPqcKey env child w j := by
    unfold fixRange
    split
    · exact ⟨inv, .refl w, rfl, fun _ => Iff.rfl⟩
    · exact ⟨{ inv with }, ⟨rfl, rfl, rfl, rfl, rfl, rfl, rfl⟩, rfl, fun _ => Iff.rfl⟩
  obtain ⟨fixedInv, same, pubkeys, sameKeys⟩ := fixed
  unfold SpkMan.topUp at topped
  dsimp only at topped
  split at topped
  · cases topped
  next last done =>
    split at topped
    · cases topped
      refine ⟨rfl, fun j has => ?_⟩
      rw [← same.getKeys] at done
      have holds := fixedInv.topUpIndices_holds (same.opened opened) wpkh correct derives enabled
        done has
      rw [pubkeys, sameKeys, List.mem_range'_1] at holds
      show HoldsPqcKey env child last j ↔ _
      rw [holds, ToppedUp]
      grind
    · cases topped

theorem Owned.topUp_shut_holds (inv : Owned env masterKey root child w)
    (wpkh : Wpkh env child masterKey root)
    (shut : w.isLocked = true ∨ config.enableHybridSignatures = false)
    (topped : w.topUp env config size = .ok (w', ok)) (j : Nat) :
    HoldsPqcKey env child w' j ↔ HoldsPqcKey env child w j := by
  suffices same : SameKeys w w' ∧ w'.mMapPqcKeys = w.mMapPqcKeys ∧
      w'.mMapCryptedPqcKeys = w.mMapCryptedPqcKeys by
    rw [holdsPqcKey_iff, holdsPqcKey_iff, same.2.1, same.2.2]
  refine @topUp_keeps _ env config (fun v => SameKeys w v ∧ v.mMapPqcKeys = w.mMapPqcKeys ∧
    v.mMapCryptedPqcKeys = w.mMapCryptedPqcKeys) w w' size ok
    (fun _ _ kept => ⟨{ kept.1 with }, kept.2⟩) (fun kept => ⟨{ kept.1 with }, kept.2⟩) ?_ topped
    ⟨SameKeys.refl w, rfl, rfl⟩
  rintro w₁ w₂ atom ⟨same, pqcKeys, cryptedPqcKeys⟩
  refine ⟨same.trans atom.sameKeys, ?_⟩
  cases atom with
  | script | pubkey | cache | count => exact ⟨pqcKeys, cryptedPqcKeys⟩
  | @pqcKey _ index _ pubkey _ _ _ _ enabled _ _ ecdsa _ =>
    -- there is no key to derive from
    have locked : w.isLocked = true := shut.resolve_right (by simp [enabled])
    rcases inv.getKeys_cases with ⟨keys, -, none⟩ | ⟨-, -, master⟩
    · have noKey : w₁.getKey env (env.crypto.getID pubkey) = .none := by
        rw [← none (env.crypto.getID pubkey)]
        simp [getKey, same.isLocked, same.keys, same.crypted, same.encrypted, same.master]
      have empty : w₁.privKeysAt env config (w.getKeys env) index = ∅ := by
        simp [privKeysAt, keys, env.desc.expandPrivate_empty]
      simp [ecdsaKeyFor, empty, noKey] at ecdsa
    · simp only [isLocked, Bool.and_eq_true, beq_iff_eq] at locked
      exact absurd ((master locked.1).symm.trans locked.2) wpkh.masterKey_ne

/-! ## New addresses -/

/-- **When the next address is a hybrid one, and when a top-up leaves no gap.**  In every reachable
state of a `wpkh()` wallet with private keys, under a configuration with hybrid signatures:

* if the wallet holds a post-quantum key for the next index, an address that is handed out is the
  hybrid address of the index exactly when the key is stored in the clear, and one is handed out
  when the next index is in the cache;
* after a top-up of the unlocked wallet every index below the end of the range has a post-quantum
  key exactly when those have one that an earlier top-up has been at. -/
theorem hybridAddress_iff (wpkh : Wpkh env child masterKey root)
    (correct : signer.Correct env.crypto) (reachable : Reachable env masterKey (· = root) w)
    (havePrivate : w.havePrivateKeys = true) (enabled : config.enableHybridSignatures = true) :
    (∀ pqcPub, w.pqcPubkeyOf (idAt env child w.nextIndex) = some pqcPub →
      hybridHash env (pubkeyAt env child w.nextIndex) pqcPub ≠ idAt env child w.nextIndex →
      (∀ w' script, w.getNewDestination env config = .ok (w', some script) →
        (script = payToKeyHash (hybridHash env (pubkeyAt env child w.nextIndex) pqcPub) ↔
          idAt env child w.nextIndex ∈ w.mMapPqcKeys)) ∧
      (CanHandOut env config w →
        ∃ w' script, w.getNewDestination env config = .ok (w', some script))) ∧
    (w.isLocked = false → env.crypto.Derives → ∀ size w',
      w.topUp env config size = .ok (w', true) → (∀ i < w'.rangeEnd, env.desc.Has i) →
      ((∀ i < w'.rangeEnd, HoldsPqcKey env child w' i) ↔
        ∀ i < w.newRangeEnd env config size, ToppedUp env child w i →
          HoldsPqcKey env child w i)) := by
  have inv := (Owned.closed wpkh correct).holds reachable
  refine ⟨fun pqcPub held apart => ⟨?_, ?_⟩, ?_⟩
  · intro w' script handed
    exact inv.handed_hybrid_iff wpkh correct enabled held apart handed
  · intro ready
    exact ready.handsOut inv wpkh correct havePrivate
  · intro unlocked derives size w' topped has
    obtain ⟨rangeEnd, holds⟩ := inv.topUp_holds (inv.opened unlocked havePrivate) wpkh correct
      derives enabled topped
    grind

/-! ## Wallets to evaluate with -/

/-- The default wallet hands out the hybrid address of its first key, and has a post-quantum key
for every index after a top-up. -/
theorem hybridAddress_falconWallet :
    (∃ w', falconWallet.getNewDestination sizedEnv falconConfig
      = .ok (w', some (payToKeyHash hybridProgramAt0))) ∧
    ∃ w', falconWallet.topUp sizedEnv falconConfig 2 = .ok (w', true) ∧ w'.rangeEnd = 2 ∧
      ∀ i < w'.rangeEnd, HoldsPqcKey sizedEnv childKey w' i := by
  obtain ⟨address, keypool⟩ := @hybridAddress_iff _ sizedEnv _ _ _ _ falconConfig _ sizedEnv_wpkh
    sizedSigner_correct falconWallet_reachable (by decide +kernel) rfl
  have next : falconWallet.nextIndex = 0 := by decide +kernel
  rw [next] at address
  have range : falconWallet.newRangeEnd sizedEnv falconConfig 0 = falconWallet.mCachedCount := by
    decide +kernel
  have ready : CanHandOut sizedEnv falconConfig falconWallet :=
    { singleType := rfl
      ranged := rfl
      cached := by decide +kernel
      counted := by decide +kernel
      whole := .inl fun i above below => by omega }
  obtain ⟨hybrid, handsOut⟩ := address
    ((falconWallet.pqcPubkeyOf (idAt sizedEnv childKey 0)).getD []) (by decide +kernel)
    (by decide +kernel)
  obtain ⟨w', script, handed⟩ := handsOut ready
  obtain rfl : script = payToKeyHash hybridProgramAt0 :=
    (hybrid w' script handed).mpr (by decide +kernel)
  refine ⟨⟨w', handed⟩, ?_⟩
  have topped := eq_ok_of_toBool
    (show (falconWallet.topUp sizedEnv falconConfig 2).toBool = true by decide +kernel)
    (falconWallet, false)
  have done : ((falconWallet.topUp sizedEnv falconConfig 2).toOption.getD
      (falconWallet, false)).2 = true := by decide +kernel
  have ends : ((falconWallet.topUp sizedEnv falconConfig 2).toOption.getD
      (falconWallet, false)).1.rangeEnd = 2 := by decide +kernel
  generalize (falconWallet.topUp sizedEnv falconConfig 2).toOption.getD (falconWallet, false)
    = result at topped done ends
  obtain ⟨toppedUp, ok⟩ := result
  subst done
  change toppedUp.rangeEnd = 2 at ends
  refine ⟨toppedUp, topped, ends, (keypool (by decide +kernel) ?_ 2 toppedUp topped ?_).mpr ?_⟩
  · exact ⟨fun _ => rfl, fun _ => rfl⟩
  · intro i below
    refine ⟨true, ?_⟩
    show (true && decide (i < 4)) = true
    simp only [Bool.true_and, decide_eq_true_eq]
    omega
  · decide +kernel

def sealedWallet : SpkMan Bool :=
  ((fresh sizedEnv (some plainMasterKey) (0, 0, 0)).setupDescriptorGeneration sizedEnv
    dilithiumConfig rootKey).toOption.getD (fresh sizedEnv none (0, 0, 0))

theorem sealedWallet_reachable : Reachable sizedEnv plainMasterKey (· = rootKey) sealedWallet :=
  .generated true dilithiumConfig rfl (eq_ok_of_toBool (by decide +kernel) _)

def unlockedWallet : SpkMan Bool :=
  ((sealedWallet.step sizedEnv plainMasterKey .lock).step sizedEnv plainMasterKey
    (.topUp dilithiumConfig 2)).step sizedEnv plainMasterKey .unlock

theorem unlockedWallet_reachable :
    Reachable sizedEnv plainMasterKey (· = rootKey) unlockedWallet :=
  .step _ nofun (.step _ nofun (.step _ nofun sealedWallet_reachable))

/-- The wallet holds the post-quantum key of the next index, encrypted, and hands out the plain
address.  After a top-up while it was locked, unlocking and another top-up leave the second index
without a post-quantum key. -/
theorem encryptedKey_plainAddress :
    Wpkh sizedEnv childKey plainMasterKey rootKey ∧ sizedSigner.Correct sizedCrypto ∧
    Reachable sizedEnv plainMasterKey (· = rootKey) sealedWallet ∧
    sealedWallet.isLocked = false ∧ sealedWallet.havePrivateKeys = true ∧
    dilithiumConfig.enableHybridSignatures = true ∧ sealedWallet.nextIndex = 0 ∧
    (∃ pqcPub, sealedWallet.pqcPubkeyOf (idAt sizedEnv childKey 0) = some pqcPub ∧
      (sealedWallet.getNewDestination sizedEnv dilithiumConfig).toOption.map (·.2)
        = some (some (payToKeyHash (idAt sizedEnv childKey 0))) ∧
      payToKeyHash (idAt sizedEnv childKey 0)
        ≠ payToKeyHash (hybridHash sizedEnv (pubkeyAt sizedEnv childKey 0) pqcPub)) ∧
    Reachable sizedEnv plainMasterKey (· = rootKey) unlockedWallet ∧
    unlockedWallet.isLocked = false ∧ unlockedWallet.havePrivateKeys = true ∧
    ((unlockedWallet.topUp sizedEnv dilithiumConfig 0).toOption.map fun result =>
      (result.2, result.1.rangeEnd, decide (HoldsPqcKey sizedEnv childKey result.1 0),
        decide (HoldsPqcKey sizedEnv childKey result.1 1))) = some (true, 2, true, false) :=
  ⟨sizedEnv_wpkh, sizedSigner_correct, sealedWallet_reachable, by decide +kernel,
    by decide +kernel, rfl, by decide +kernel,
    ⟨(sealedWallet.pqcPubkeyOf (idAt sizedEnv childKey 0)).getD [], by decide +kernel,
      by decide +kernel, by decide +kernel⟩,
    unlockedWallet_reachable, by decide +kernel, by decide +kernel, by decide +kernel⟩

end SpkMan

end QuantBTC.Wallet
